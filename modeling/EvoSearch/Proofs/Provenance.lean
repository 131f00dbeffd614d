/-
# Where fitnesses come from

Judges compute two functions of a program. An engine vouches for what it holds if every program in
its slots, its archive and its best so far goes with a fitness of its own, and so do the programs of
a store that can be trusted.

What a run does to the store is put as a contract: it tells the store nothing but honest pairs as
long as it hears nothing but honest ones. Every part of a generation keeps to it and to what the
engine vouches for, and so does a store in memory, which gives back what it has been told.
-/

import EvoSearch.Proofs.Parts
import EvoSearch.Proofs.Sharing

namespace EvoSearch

open Script Store

/-- The two functions that the judges of some runs compute, and whether there is a run that may pass
the cheap one for the fitness. -/
structure Reference where
  full : Program → Float
  early : Program → Float
  gated : Prop

namespace Reference

variable (reference : Reference)

/-- The fitness is that of the program. -/
def Scores (scored : Scored) : Prop :=
  scored.fitness = reference.full scored.program ∨
    reference.gated ∧ scored.fitness = reference.early scored.program

/-- The fitness of a slot is that of its program, and so is the cheap one, if there is one. -/
structure Fits (slot : Slot) : Prop where
  scored : reference.Scores slot.scored
  earlyFitness : ∀ early, slot.earlyFitness = some early → early = reference.early slot.program

/-- What may be told: the store is to keep honest pairs only. -/
def Tells : Effect → Prop
  | .store (.publish _ members) => ∀ scored ∈ members, reference.Scores scored
  | .store (.logFinal _ result) => reference.Scores result
  | _ => True

/-- What is heard: the store brings honest pairs only. -/
def Hears : (effect : Effect) → effect.Answer → Prop
  | .store (.sample _ _), .ok rows => ∀ row ∈ rows, reference.Scores row
  | _, _ => True

/-- A store keeps honest pairs only. -/
structure Trusts (memory : Memory) : Prop where
  members : ∀ entry ∈ memory.members, reference.Scores entry.scored
  finals : ∀ entry ∈ memory.finals, reference.Scores entry.scored

/-- The judges of a run compute the two functions. -/
structure Judges (ε : Type) [Evaluator ε] : Prop where
  full : ∀ program (evaluator : ε),
    (Evaluator.evaluate program evaluator).1 = reference.full program
  early : ∀ program (evaluator : ε),
    (Evaluator.evaluateEarly program evaluator).1 = reference.early program

variable {reference}

theorem Fits.of_alike {slot other : Slot} (fits : reference.Fits other) (alike : slot.Alike other) :
    reference.Fits slot where
  scored := alike.scored ▸ fits.scored
  earlyFitness early found := by
    rw [show slot.program = other.program from congrArg Scored.program alike.scored]
    exact fits.earlyFitness early (alike.earlyFitness ▸ found)

theorem Fits.fresh {scored : Scored} (scores : reference.Scores scored) :
    reference.Fits (.fresh scored none) where
  scored := scores
  earlyFitness := by rintro _ ⟨⟩

/-- Whatever the strategy, a child is given a fitness of its own. -/
theorem fits_of_evaluate {ε : Type} [Evaluator ε] (judges : reference.Judges ε)
    {strategy : Strategy} (gated : strategy.collectsEarly = true → reference.gated)
    (program : Program) (evaluator : ε) :
    reference.Fits (.fresh
      { program, fitness := (strategy.evaluate program evaluator).1.fitness }
      (strategy.evaluate program evaluator).1.earlyFitness) := by
  have expensive : reference.Fits (.fresh
      { program, fitness := (Evaluation.full program evaluator).1.fitness }
      (Evaluation.full program evaluator).1.earlyFitness) :=
    ⟨.inl (judges.full program evaluator), by rintro _ ⟨⟩⟩
  cases strategy with
  | standard => exact expensive
  | qualityDiversity => exact expensive
  | mapElites archive => exact expensive
  | hurdles hurdle =>
    rw [Strategy.evaluate, Hurdle.evaluate]
    have cheap : ∀ early, some (Evaluator.evaluateEarly program evaluator).1 = some early →
        early = reference.early program := by
      rintro early ⟨⟩
      exact judges.early program evaluator
    split
    · dsimp only
      split
      · exact ⟨.inl (judges.full program _), cheap⟩
      · exact ⟨.inr ⟨gated rfl, judges.early program evaluator⟩, cheap⟩
    · exact expensive

/-- A store keeps to what it is told. -/
theorem Trusts.of_answers {memory memory' : Memory} {query : Effect} {answer : query.Answer}
    (trusts : reference.Trusts memory) (tells : reference.Tells query)
    (answers : Answers memory ⟨query, answer⟩ memory') : reference.Trusts memory' := by
  cases query with
  | chance choice =>
    cases answers
    exact trusts
  | clock =>
    cases answers
    exact trusts
  | store call =>
    refine ⟨?_, ?_⟩
    · intro entry entry_mem
      rcases answers.of_mem_members entry_mem with old | ⟨members, rfl, scored_mem⟩
      · exact trusts.members entry old
      · exact tells entry.scored scored_mem
    · intro entry entry_mem
      rcases answers.of_mem_finals entry_mem with old | rfl
      · exact trusts.finals entry old
      · exact tells

/-- A store gives back what it has been told. -/
theorem Trusts.hears_of_answers {memory memory' : Memory} {query : Effect} {answer : query.Answer}
    (trusts : reference.Trusts memory) (answers : Answers memory ⟨query, answer⟩ memory') :
    reference.Hears query answer := by
  cases query with
  | chance choice => trivial
  | clock => trivial
  | store call =>
    cases call with
    | sample run count =>
      obtain ⟨_, ⟨error, rfl⟩ | ⟨rows, rfl, foreign⟩⟩ := answers.of_sample
      · trivial
      · intro row row_mem
        obtain ⟨entry, entry_mem, _, rfl, _⟩ := Memory.exists_of_mem_foreignTo (foreign row row_mem)
        exact trusts.members entry entry_mem
    | _ => trivial

end Reference

namespace Engine

variable {γ μ ε : Type} {reference : Reference} {engine next : Engine γ μ ε}

/-- All that an engine holds is honest: its slots once they have been seeded, its archive, and its
best so far. Cheap fitnesses come up in runs that may pass them only. -/
structure Vouches (reference : Reference) (engine : Engine γ μ ε) : Prop where
  slot : engine.seeded = true → ∀ slot, engine.population.Holds slot → reference.Fits slot
  elite : ∀ elite, engine.Archives elite → reference.Scores elite
  best : ∀ best, engine.best = some best → reference.Scores best
  gated : engine.strategy.collectsEarly = true → reference.gated

theorem vouches_of_new {config : EvolutionConfig} {generator : γ} {mutator : μ}
    {evaluator : ε} {time : Nat}
    (gated : config.mode = .hurdles → reference.gated)
    (made : new config generator mutator evaluator time = .ok engine) :
    engine.Vouches reference := by
  obtain ⟨_, strategy, strategy_eq, rfl⟩ := of_new made
  refine ⟨?_, ?_, ?_, ?_⟩
  · rintro ⟨⟩
  · intro elite archived
    exact (not_archives_of_ofMode strategy_eq elite archived).elim
  · rintro _ ⟨⟩
  · intro collects
    exact gated (Strategy.mode_eq_of_collectsEarly strategy_eq collects)

/-- The engine vouches for what it holds at every point of the parts, and keeps to the contract in
between. -/
def Sound (reference : Reference) : List (Part γ μ ε) → Engine γ μ ε → Prop
  | [], engine => engine.Vouches reference
  | part :: parts, engine => engine.Vouches reference ∧
    (part engine).Respects reference.Tells reference.Hears (Sound reference parts)

theorem Sound.vouches {parts : List (Part γ μ ε)} (sound : Sound reference parts engine) :
    engine.Vouches reference := by
  cases parts with
  | nil => exact sound
  | cons part parts => exact sound.1

/-- A part that keeps an engine honest whose population has been seeded. -/
def Keeps (reference : Reference) (part : Part γ μ ε) : Prop :=
  ∀ engine, engine.Vouches reference → engine.seeded = true →
    (part engine).Respects reference.Tells reference.Hears
      fun next => next.Vouches reference ∧ next.seeded = true

theorem sound_of_keeps {parts : List (Part γ μ ε)} (keeps : ∀ part ∈ parts, Keeps reference part)
    (vouches : engine.Vouches reference) (seeded : engine.seeded = true) :
    Sound reference parts engine := by
  induction parts generalizing engine with
  | nil => exact vouches
  | cons part parts ih =>
    refine ⟨vouches, (keeps part List.mem_cons_self engine vouches seeded).mono ?_⟩
    intro next good
    exact ih (fun other other_mem => keeps other (List.mem_cons_of_mem part other_mem))
      good.1 good.2

/-- A slot that fits may be written anywhere. -/
theorem Vouches.of_set {index : Nat} {slot : Slot} (vouches : engine.Vouches reference)
    (fits : engine.seeded = true → reference.Fits slot)
    (population_eq : next.population = engine.population.set index slot)
    (strategy_eq : next.strategy = engine.strategy) (best_eq : next.best = engine.best)
    (seeded_eq : next.seeded = engine.seeded) : next.Vouches reference where
  slot seeded other other_holds := by
    rw [seeded_eq] at seeded
    obtain ⟨place, found⟩ := other_holds
    rw [population_eq, Population.slot?_set] at found
    split at found
    · split at found
      · obtain rfl := Option.some.inj found
        exact fits seeded
      · cases found
    · exact vouches.slot seeded other ⟨place, found⟩
  elite elite archived := vouches.elite elite ((archives_congr strategy_eq).mp archived)
  best best found := vouches.best best (best_eq ▸ found)
  gated := by
    rw [strategy_eq]
    exact vouches.gated

theorem respects_best {I : Interface} {asks : I.Query → Prop}
    {granted : (q : I.Query) → I.Answer q → Prop} (population : Population) :
    (population.best : Script I _).Respects asks granted
      fun found => population.best? = some found :=
  respects_ofOption

theorem keeps_promoteBest : Keeps reference (promoteBest (γ := γ) (μ := μ) (ε := ε)) := by
  intro engine vouches seeded
  rw [promoteBest]
  apply (respects_best engine.population).bind
  rintro ⟨slot, index⟩ found
  dsimp only
  split
  · exact ⟨vouches, seeded⟩
  · apply respects_ofOption.bind
    intro population replaced
    obtain ⟨_, rfl⟩ := Population.replace?_eq_some_iff.mp replaced
    exact ⟨vouches.of_set
      (fun _ => vouches.slot seeded slot ⟨index, Population.slot?_of_best? found⟩)
      rfl rfl rfl rfl, seeded⟩

theorem keeps_applyStrategy :
    Keeps reference fun engine : Engine γ μ ε => engine.applyStrategy.act := by
  intro engine vouches seeded
  refine Respects.lift (fun _ => trivial) fun talk next yields => ?_
  have reshapes := reshapes_of_applyStrategy yields
  have elite (elite : Scored) (archived : next.Archives elite) : reference.Scores elite := by
    rcases reshapes.elite elite archived with old | ⟨slot, holds, _, rfl⟩
    · exact vouches.elite elite old
    · exact (vouches.slot seeded slot holds).scored
  refine ⟨⟨fun _ after after_holds => ?_, elite, ?_, ?_⟩, reshapes.seeded_eq.trans seeded⟩
  · rcases reshapes.slot after after_holds with ⟨before, before_holds, alike⟩ |
      ⟨elected, archived, rfl⟩
    · exact (vouches.slot seeded before before_holds).of_alike alike
    · exact .fresh (elite elected archived)
  · rw [reshapes.best_eq]
    exact vouches.best
  · rw [reshapes.collectsEarly_eq]
    exact vouches.gated

theorem respects_exchange {config : MigrationConfig} {population : Population}
    (honest : ∀ slot, population.Holds slot → reference.Fits slot) :
    (config.exchange population).Respects reference.Tells reference.Hears
      fun outcome => ∀ migrants, outcome = .ok migrants →
        ∀ scored ∈ migrants, reference.Scores scored := by
  have members (scored : Scored) (scored_mem : scored ∈ population.members) :
      reference.Scores scored := by
    obtain ⟨slot, slot_mem, rfl⟩ := List.mem_map.mp scored_mem
    obtain ⟨index, found⟩ := List.mem_iff_getElem?.mp slot_mem
    exact (honest slot ⟨index, by simpa [Population.slot?] using found⟩).scored
  refine ⟨trivial, fun withdrawal _ => ?_⟩
  cases withdrawal with
  | error error => rintro _ ⟨⟩
  | ok _ =>
    refine ⟨members, fun publication _ => ?_⟩
    cases publication with
    | error error => rintro _ ⟨⟩
    | ok _ =>
      refine ⟨trivial, fun sample heard migrants same => ?_⟩
      subst same
      exact heard

theorem keeps_migrate : Keeps reference (migrate (γ := γ) (μ := μ) (ε := ε)) := by
  intro engine vouches seeded
  have honest := vouches.slot seeded
  rw [migrate]
  suffices outcome : (engine.config.migration.migrate engine.population).Respects reference.Tells
      reference.Hears fun outcome => ∀ slot, outcome.2.Holds slot → reference.Fits slot by
    refine outcome.bind fun outcome fits => ?_
    exact ⟨⟨fun _ => fits, vouches.elite, vouches.best, vouches.gated⟩, seeded⟩
  rw [MigrationConfig.migrate]
  split
  · exact honest
  · refine Respects.bind (Respects.lift (fun _ => trivial) fun _ _ _ => trivial)
      fun drawn (_ : True) => ?_
    split
    · exact honest
    · refine (respects_exchange honest).bind fun outcome scores => ?_
      cases outcome with
      | error error => exact honest
      | ok migrants =>
        dsimp only
        rw [Population.splice?_eq, ofOption_some, done_bind]
        rintro slot ⟨index, found⟩
        by_cases landed : index ∈
            (engine.config.migration.splice.landings engine.population migrants).map Prod.fst
        · obtain ⟨landing, landing_mem, rfl⟩ := List.mem_map.mp landed
          rw [Population.slot?_splice_of_mem landing_mem] at found
          obtain rfl := Option.some.inj found
          refine .fresh (scores migrants rfl landing.2 ?_)
          exact (List.of_mem_zip (List.mem_of_mem_take landing_mem)).2
        · rw [Population.slot?_splice_of_not_mem landed] at found
          exact honest slot ⟨index, found⟩

theorem Vouches.noteBest {slot : Slot} (vouches : engine.Vouches reference)
    (fits : reference.Fits slot) : (engine.noteBest slot.scored).Vouches reference := by
  obtain ⟨best, best_eq, origin, _, _⟩ := exists_best_noteBest engine slot.scored
  refine ⟨?_, ?_, ?_, ?_⟩
  · rw [seeded_noteBest, population_noteBest]
    exact vouches.slot
  · intro elite archived
    exact vouches.elite elite ((archives_congr (strategy_noteBest ..)).mp archived)
  · intro other other_eq
    obtain rfl := Option.some.inj (best_eq.symm.trans other_eq)
    rcases origin with rfl | former
    · exact fits.scored
    · exact vouches.best best former
  · rw [strategy_noteBest]
    exact vouches.gated

theorem respects_updateBest (vouches : engine.Vouches reference) (seeded : engine.seeded = true) :
    (engine.updateBest : Act _).Respects reference.Tells reference.Hears
      fun next => next.Vouches reference ∧ next.seeded = true := by
  rw [updateBest]
  apply (respects_best engine.population).bind
  rintro ⟨slot, index⟩ found
  have holds : engine.population.Holds slot := ⟨index, Population.slot?_of_best? found⟩
  exact ⟨vouches.noteBest (vouches.slot seeded slot holds), (seeded_noteBest ..).trans seeded⟩

theorem keeps_finishGeneration :
    Keeps reference (finishGeneration (γ := γ) (μ := μ) (ε := ε)) := by
  intro engine vouches seeded
  refine respects_updateBest ⟨?_, ?_, ?_, ?_⟩ ?_
  · exact vouches.slot
  · exact vouches.elite
  · exact vouches.best
  · exact vouches.gated
  · exact seeded

theorem keeps_report : Keeps reference (report (γ := γ) (μ := μ) (ε := ε)) := by
  intro engine vouches seeded
  rw [report]
  split
  · refine (respects_best engine.population).bind fun best _ => ?_
    refine ⟨trivial, fun _ _ => ⟨trivial, fun time _ => ⟨trivial, fun _ _ => ?_⟩⟩⟩
    exact ⟨⟨vouches.slot, vouches.elite, vouches.best, vouches.gated⟩, seeded⟩
  · exact ⟨vouches, seeded⟩

/-- Record the result of a run. -/
def recordPart : Part γ μ ε :=
  fun engine => engine.recordFinal >>= fun _ => pure engine

theorem sound_recordPart (vouches : engine.Vouches reference) :
    Sound reference [recordPart] engine := by
  refine ⟨vouches, ?_⟩
  rw [recordPart, recordFinal]
  cases best_eq : engine.best with
  | none => exact vouches
  | some best => exact ⟨vouches.best best best_eq, fun _ _ => vouches⟩

variable [Mutator μ] [Evaluator ε]

theorem keeps_breedPart (judges : reference.Judges ε) (index : Nat) :
    Keeps reference (breedPart (γ := γ) (μ := μ) (ε := ε) index) := by
  intro engine vouches seeded
  refine Respects.lift (fun _ => trivial) fun talk next yields => ?_
  obtain ⟨_, child, mutator, rfl⟩ := of_breedSlot yields
  exact ⟨vouches.of_set (fun _ => Reference.fits_of_evaluate judges vouches.gated child _)
    rfl rfl rfl rfl, seeded⟩

theorem sound_generationParts (judges : reference.Judges ε) (vouches : engine.Vouches reference)
    (seeded : engine.seeded = true) (size : Nat) :
    Sound reference (generationParts size) engine := by
  refine sound_of_keeps ?_ vouches seeded
  intro part part_mem
  simp only [generationParts, rearingParts, closingParts, fillingParts, List.cons_append,
    List.append_assoc, List.mem_cons, List.mem_append, List.mem_map, List.not_mem_nil,
    or_false, false_or] at part_mem
  rcases part_mem with rfl | ⟨index, _, rfl⟩ | rfl | rfl | rfl | rfl
  · exact keeps_promoteBest
  · exact keeps_breedPart judges index
  · exact keeps_applyStrategy
  · exact keeps_migrate
  · exact keeps_finishGeneration
  · exact keeps_report

variable [Generator γ]

/-- The population is honest once the last slot has been seeded. -/
theorem sound_seedingParts (judges : reference.Judges ε) {first count : Nat}
    (vouches : engine.Vouches reference)
    (size_eq : engine.population.size = first + count)
    (filled : ∀ index slot, index < first → engine.population.slot? index = some slot →
      reference.Fits slot) :
    Sound reference (fillingParts seedPart first count ++ [finishSeeding, report]) engine := by
  induction count generalizing first engine with
  | zero =>
    refine ⟨vouches, ?_⟩
    have fits (slot : Slot) (holds : engine.population.Holds slot) : reference.Fits slot := by
      obtain ⟨index, found⟩ := holds
      have within := Population.lt_size_of_slot? found
      rw [size_eq, Nat.add_zero] at within
      exact filled index slot within found
    have finished : (engine.finishSeeding).Respects reference.Tells reference.Hears
        fun next => next.Vouches reference ∧ next.seeded = true :=
      respects_updateBest ⟨fun _ => fits, vouches.elite, vouches.best, vouches.gated⟩ rfl
    refine finished.mono fun next good => ?_
    refine sound_of_keeps ?_ good.1 good.2
    intro part part_mem
    rw [List.mem_singleton.mp part_mem]
    exact keeps_report
  | succ count ih =>
    rw [fillingParts, List.range'_succ, List.map_cons, List.cons_append]
    refine ⟨vouches, Respects.lift (fun _ => trivial) fun talk next yields => ?_⟩
    obtain ⟨within, program, generator, mutator, next_eq⟩ := of_seedSlot yields
    have fits : reference.Fits (.fresh
        { program, fitness := (Evaluator.evaluate program engine.evaluator).1 }
        (some (Evaluator.evaluateEarly program
          (Evaluator.evaluate program engine.evaluator).2).1)) := by
      refine ⟨.inl (judges.full program _), ?_⟩
      rintro early ⟨⟩
      exact judges.early program _
    apply ih
    · rw [next_eq]
      exact vouches.of_set (fun _ => fits) rfl rfl rfl rfl
    · rw [next_eq]
      dsimp only
      rw [Population.size_set, size_eq]
      omega
    · intro index slot index_lt found
      rw [next_eq] at found
      dsimp only at found
      rw [Population.slot?_set] at found
      split at found
      · obtain rfl := Option.some.inj found
        exact fits
      · exact filled index slot (by omega) found

end Engine

end EvoSearch
