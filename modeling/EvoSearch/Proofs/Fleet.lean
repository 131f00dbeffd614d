/-
# Runs at the same time

Several runs work at the same time, share one store in memory, and judge programs by the same two
functions. They take turns in any order, between any two calls to the store, and any call may fail.
A program never goes with a fitness that is not its own, whoever holds it.

The invariant is that every engine vouches for what it holds and has nothing but honest parts before
it, and that the store can be trusted; a turn of one run leaves the others where they are.

What a given order of turns comes to can be computed, where chance always brings zero and calls fail
only when they are told to.
-/

import Mathlib.Logic.Function.Basic
import EvoSearch.Proofs.Provenance

namespace EvoSearch

open Script Store

/-- Several runs that share a store in memory. -/
structure Fleet {ι : Type} (γ μ ε : ι → Type) where
  memory : Memory
  /-- every engine as it is behind the last part that it has come to the end of -/
  engine : (i : ι) → Engine (γ i) (μ i) (ε i)
  /-- what is left of the part that it is in -/
  pending : (i : ι) → Act (Engine (γ i) (μ i) (ε i))
  /-- the parts that follow -/
  agenda : (i : ι) → List (Engine.Part (γ i) (μ i) (ε i))

namespace Fleet

variable {ι : Type} {γ μ ε : ι → Type} {fleet next start : Fleet γ μ ε} {reference : Reference}

/-- The engine that a part has come to, or the one before where it has not come to its end. -/
def settled {γ μ ε : Type} (before : Engine γ μ ε) : Act (Engine γ μ ε) → Engine γ μ ε
  | .done after => after
  | _ => before

/-- All runs but one are as they were. -/
structure AgreesBut (i : ι) (fleet next : Fleet γ μ ε) : Prop where
  engine : ∀ j, j ≠ i → next.engine j = fleet.engine j
  pending : ∀ j, j ≠ i → next.pending j = fleet.pending j
  agenda : ∀ j, j ≠ i → next.agenda j = fleet.agenda j

/-- What a run may take up: seed its population, go through a generation once that is done, or
record its result. -/
inductive Begins {γ μ ε : Type} [Generator γ] [Mutator μ] [Evaluator ε] (engine : Engine γ μ ε) :
    List (Engine.Part γ μ ε) → Prop
  | seeding : Begins engine (Engine.seedingParts engine.population.size)
  | generation : engine.seeded = true →
      Begins engine (Engine.generationParts engine.population.size)
  | recording : Begins engine [Engine.recordPart]

variable [∀ i, Generator (γ i)] [∀ i, Mutator (μ i)] [∀ i, Evaluator (ε i)]

/-- One run does something: it takes something up if it is not busy, it enters the next part, or it
goes on with a part by one answer. -/
inductive Step (fleet next : Fleet γ μ ε) : Prop
  | begin (i : ι) : fleet.agenda i = [] → fleet.pending i = .done (fleet.engine i) →
      Begins (fleet.engine i) (next.agenda i) →
      next.engine i = fleet.engine i → next.pending i = fleet.pending i →
      AgreesBut i fleet next → next.memory = fleet.memory → Step fleet next
  | enter (i : ι) {part : Engine.Part (γ i) (μ i) (ε i)} :
      fleet.agenda i = part :: next.agenda i → fleet.pending i = .done (fleet.engine i) →
      next.pending i = part (fleet.engine i) →
      next.engine i = settled (fleet.engine i) (next.pending i) →
      AgreesBut i fleet next → next.memory = fleet.memory → Step fleet next
  | turn (i : ι) {query : Effect} {resume : query.Answer → Act (Engine (γ i) (μ i) (ε i))}
      {answer : query.Answer} :
      fleet.pending i = .ask query resume →
      Answers fleet.memory ⟨query, answer⟩ next.memory →
      next.pending i = resume answer →
      next.engine i = settled (fleet.engine i) (next.pending i) →
      next.agenda i = fleet.agenda i → AgreesBut i fleet next → Step fleet next

/-- What can come of a fleet. -/
inductive Reachable (start : Fleet γ μ ε) : Fleet γ μ ε → Prop
  | start : Reachable start start
  | step {fleet next : Fleet γ μ ε} : Reachable start fleet → Step fleet next →
      Reachable start next

/-- What holds of one run at all times. -/
structure Accords {γ μ ε : Type} (reference : Reference) (engine : Engine γ μ ε)
    (pending : Act (Engine γ μ ε)) (agenda : List (Engine.Part γ μ ε)) : Prop where
  vouches : engine.Vouches reference
  respects : pending.Respects reference.Tells reference.Hears (Engine.Sound reference agenda)

theorem accords_of_settled {γ μ ε : Type} {before : Engine γ μ ε} {pending : Act (Engine γ μ ε)}
    {agenda : List (Engine.Part γ μ ε)} (vouches : before.Vouches reference)
    (respects : pending.Respects reference.Tells reference.Hears
      (Engine.Sound reference agenda)) :
    Accords reference (settled before pending) pending agenda := by
  refine ⟨?_, respects⟩
  cases pending with
  | done after => exact Engine.Sound.vouches respects
  | fault reason => exact vouches
  | ask query resume => exact vouches

/-- The invariant of a fleet. -/
structure Sound (reference : Reference) (fleet : Fleet γ μ ε) : Prop where
  memory : reference.Trusts fleet.memory
  run : ∀ i, Accords reference (fleet.engine i) (fleet.pending i) (fleet.agenda i)

omit [∀ i, Generator (γ i)] [∀ i, Mutator (μ i)] [∀ i, Evaluator (ε i)] in
theorem Sound.of_agreesBut (sound : Sound reference fleet) {i : ι}
    (agrees : AgreesBut i fleet next) (trusts : reference.Trusts next.memory)
    (accords : Accords reference (next.engine i) (next.pending i) (next.agenda i)) :
    Sound reference next := by
  refine ⟨trusts, fun j => ?_⟩
  by_cases same : j = i
  · subst same
    exact accords
  · rw [agrees.engine j same, agrees.pending j same, agrees.agenda j same]
    exact sound.run j

theorem sound_of_begins {γ μ ε : Type} [Generator γ] [Mutator μ] [Evaluator ε]
    (judges : reference.Judges ε) {engine : Engine γ μ ε} {parts : List (Engine.Part γ μ ε)}
    (vouches : engine.Vouches reference) (begins : Begins engine parts) :
    Engine.Sound reference parts engine := by
  cases begins with
  | seeding =>
    exact Engine.sound_seedingParts judges vouches (Nat.zero_add _).symm
      fun index slot index_lt => absurd index_lt (Nat.not_lt_zero index)
  | generation seeded => exact Engine.sound_generationParts judges vouches seeded _
  | recording => exact Engine.sound_recordPart vouches

theorem Sound.step (judges : ∀ i, reference.Judges (ε i)) (sound : Sound reference fleet)
    (step : Step fleet next) : Sound reference next := by
  cases step with
  | begin i _ pending_eq begins engine_eq same agrees memory_eq =>
    refine sound.of_agreesBut agrees (memory_eq ▸ sound.memory) ?_
    rw [engine_eq, same, pending_eq]
    exact ⟨(sound.run i).vouches, sound_of_begins (judges i) (sound.run i).vouches begins⟩
  | enter i agenda_eq pending_eq entered engine_eq agrees memory_eq =>
    refine sound.of_agreesBut agrees (memory_eq ▸ sound.memory) ?_
    rw [engine_eq]
    apply accords_of_settled (sound.run i).vouches
    have respects := (sound.run i).respects
    rw [agenda_eq, pending_eq] at respects
    rw [entered]
    exact respects.2
  | turn i pending_eq answers resumed engine_eq agenda_eq agrees =>
    have respects := (sound.run i).respects
    rw [pending_eq] at respects
    apply sound.of_agreesBut agrees (sound.memory.of_answers respects.1 answers)
    rw [engine_eq, agenda_eq]
    apply accords_of_settled (sound.run i).vouches
    rw [resumed]
    exact respects.2 _ (sound.memory.hears_of_answers answers)

theorem Reachable.sound (judges : ∀ i, reference.Judges (ε i)) (initially : Sound reference start)
    (reachable : Reachable start fleet) : Sound reference fleet := by
  induction reachable with
  | start => exact initially
  | step _ step ih => exact ih.step judges step

/-- The two functions that all judges compute. A run may pass the cheap one for the fitness if one
of the runs holds candidates back at a hurdle. -/
def common (config : ι → EvolutionConfig) (full early : Program → Float) : Reference where
  full := full
  early := early
  gated := ∃ i, (config i).mode = .hurdles

/-- Runs that have been set up with an empty store, and whose judges compute the same two functions,
never part a program from its fitness, in whatever order they go on. The parts that they take up are
those of a seeding, of a generation, and of the recording of a result. -/
theorem pairs_stay_together {config : ι → EvolutionConfig} {generator : (i : ι) → γ i}
    {mutator : (i : ι) → μ i} {evaluator : (i : ι) → ε i} {time : ι → Nat}
    {full early : Program → Float}
    (made : ∀ i, Engine.new (config i) (generator i) (mutator i) (evaluator i) (time i) =
      .ok (start.engine i))
    (idle : ∀ i, start.agenda i = [] ∧ start.pending i = .done (start.engine i))
    (empty : start.memory = .empty)
    (judges : ∀ i, (common config full early).Judges (ε i))
    (reachable : Reachable start fleet) :
    (∀ i (engine : Engine (γ i) (μ i) (ε i)),
      engine.seed = Engine.perform (Engine.seedingParts engine.population.size) engine ∧
      engine.step = Engine.perform (Engine.generationParts engine.population.size) engine ∧
      engine.recordFinal >>= (fun _ => pure engine) = Engine.perform [Engine.recordPart] engine) ∧
    (∀ i, (fleet.engine i).Vouches (common config full early)) ∧
    (common config full early).Trusts fleet.memory := by
  have initially : Sound (common config full early) start := by
    refine ⟨?_, fun i => ?_⟩
    · rw [empty]
      exact ⟨fun _ entry_mem => absurd entry_mem List.not_mem_nil,
        fun _ entry_mem => absurd entry_mem List.not_mem_nil⟩
    · have vouches : (start.engine i).Vouches (common config full early) :=
        Engine.vouches_of_new (fun hurdles => ⟨i, hurdles⟩) (made i)
      rw [(idle i).1, (idle i).2]
      exact ⟨vouches, vouches⟩
  have sound := reachable.sound judges initially
  refine ⟨fun i engine => ?_, fun i => (sound.run i).vouches, sound.memory⟩
  exact ⟨engine.seed_eq_perform, engine.step_eq_perform, (bind_pure engine.recordPart).symm⟩

/-- Where a run has come to the end of a part, its engine is what the part has made. -/
theorem Reachable.engine_eq (idle : ∀ i, start.pending i = .done (start.engine i))
    (reachable : Reachable start fleet) {i : ι} {engine : Engine (γ i) (μ i) (ε i)}
    (ended : fleet.pending i = .done engine) : fleet.engine i = engine := by
  induction reachable with
  | start => exact Script.done.inj ((idle i).symm.trans ended)
  | @step fleet next _ step ih =>
    -- the run that has moved settles, and all others are where they were
    have of_settled {j : ι} (settles : next.engine j = settled (fleet.engine j) (next.pending j))
        (agrees : AgreesBut j fleet next) : next.engine i = engine := by
      by_cases same : i = j
      · subst same
        rw [settles, ended, settled]
      · rw [agrees.engine i same]
        exact ih ((agrees.pending i same).symm.trans ended)
    cases step with
    | begin j _ pending_eq _ engine_eq same agrees _ =>
      refine of_settled ?_ agrees
      rw [engine_eq, same, pending_eq, settled]
    | enter j _ _ _ engine_eq agrees _ => exact of_settled engine_eq agrees
    | turn j _ _ _ engine_eq _ agrees => exact of_settled engine_eq agrees

section Schedule

variable [DecidableEq ι]

omit [∀ i, Generator (γ i)] [∀ i, Mutator (μ i)] [∀ i, Evaluator (ε i)] in
/-- One run is left with so much of its part, and with these parts to follow. -/
def resume (fleet : Fleet γ μ ε) (i : ι) (memory : Memory)
    (pending : Act (Engine (γ i) (μ i) (ε i))) (agenda : List (Engine.Part (γ i) (μ i) (ε i))) :
    Fleet γ μ ε where
  memory
  engine := Function.update fleet.engine i (settled (fleet.engine i) pending)
  pending := Function.update fleet.pending i pending
  agenda := Function.update fleet.agenda i agenda

/-- A run that is not busy seeds its population, or goes through a generation if it has. -/
def takeUp (fleet : Fleet γ μ ε) (i : ι) : Fleet γ μ ε :=
  match fleet.agenda i, fleet.pending i with
  | [], .done engine => fleet.resume i fleet.memory (.done engine) <|
      if engine.seeded then Engine.generationParts engine.population.size
      else Engine.seedingParts engine.population.size
  | _, _ => fleet

omit [∀ i, Generator (γ i)] [∀ i, Mutator (μ i)] [∀ i, Evaluator (ε i)] in
/-- A busy run enters its next part, or its question is answered: chance brings zero, the clock
stands still, and no call fails. -/
def advance (fleet : Fleet γ μ ε) (i : ι) : Fleet γ μ ε :=
  match fleet.pending i, fleet.agenda i with
  | .done engine, part :: later => fleet.resume i fleet.memory (part engine) later
  | .ask query resume, later =>
    match fleet.memory.reply? query with
    | some (answer, memory) => fleet.resume i memory (resume answer) later
    | none => fleet
  | _, _ => fleet

omit [∀ i, Generator (γ i)] [∀ i, Mutator (μ i)] [∀ i, Evaluator (ε i)] in
/-- The call that a run has made fails. -/
def refuse (fleet : Fleet γ μ ε) (i : ι) (error : Error) : Fleet γ μ ε :=
  match fleet.pending i with
  | .ask (.store _) resume =>
    fleet.resume i fleet.memory (resume (.error error)) (fleet.agenda i)
  | _ => fleet

section Resume

omit [∀ i, Generator (γ i)] [∀ i, Mutator (μ i)] [∀ i, Evaluator (ε i)]

variable {i : ι} {memory : Memory} {pending : Act (Engine (γ i) (μ i) (ε i))}
  {agenda : List (Engine.Part (γ i) (μ i) (ε i))}

@[simp] theorem engine_resume :
    (fleet.resume i memory pending agenda).engine i = settled (fleet.engine i) pending :=
  Function.update_self ..

@[simp] theorem pending_resume : (fleet.resume i memory pending agenda).pending i = pending :=
  Function.update_self ..

@[simp] theorem agenda_resume : (fleet.resume i memory pending agenda).agenda i = agenda :=
  Function.update_self ..

theorem agreesBut_resume : AgreesBut i fleet (fleet.resume i memory pending agenda) where
  engine _ other := Function.update_of_ne other ..
  pending _ other := Function.update_of_ne other ..
  agenda _ other := Function.update_of_ne other ..

end Resume

namespace Reachable

variable (idle : ∀ i, start.pending i = .done (start.engine i)) (reachable : Reachable start fleet)
include idle reachable

theorem takeUp (i : ι) : Reachable start (fleet.takeUp i) := by
  rw [Fleet.takeUp]
  split
  · next engine free ended =>
    have here : fleet.engine i = engine := reachable.engine_eq idle ended
    subst here
    refine reachable.step (.begin i free ended ?_ engine_resume (pending_resume.trans ended.symm)
      agreesBut_resume rfl)
    rw [agenda_resume]
    split
    · next seeded => exact .generation seeded
    · exact .seeding
  · exact reachable

theorem advance (i : ι) : Reachable start (fleet.advance i) := by
  rw [Fleet.advance]
  split
  · next engine part later ended planned =>
    have here : fleet.engine i = engine := reachable.engine_eq idle ended
    subst here
    refine reachable.step (.enter i ?_ ended pending_resume ?_ agreesBut_resume rfl)
    · rw [planned, agenda_resume]
    · rw [engine_resume, pending_resume]
  · next query rest asks =>
    split
    · next replied =>
      refine reachable.step (.turn i asks (answers_of_reply? replied) pending_resume ?_
        agenda_resume agreesBut_resume)
      rw [engine_resume, pending_resume]
    · exact reachable
  · exact reachable

omit idle in
theorem refuse (i : ι) (error : Error) : Reachable start (fleet.refuse i error) := by
  rw [Fleet.refuse]
  split
  · next call rest asks =>
    refine reachable.step (.turn i asks (.failed call error) pending_resume ?_ agenda_resume
      agreesBut_resume)
    rw [engine_resume, pending_resume]
  · exact reachable

/-- Runs may advance in any order. -/
theorem foldl_advance (order : List ι) : Reachable start (order.foldl Fleet.advance fleet) := by
  induction order generalizing fleet with
  | nil => exact reachable
  | cons i order ih => exact ih (reachable.advance idle i)

end Reachable

end Schedule

/-- A maker of one and the same program. -/
structure Copyist where
  program : Program

instance : Generator Copyist where
  generate copyist := pure (copyist.program, copyist)

/-- A judge that counts instructions, and finds the number early on as well. -/
instance : Evaluator Blank where
  evaluate program judge := (Float.ofNat program.size, judge)
  evaluateEarly program judge := (Float.ofNat program.size, judge)
  trainSteps _ := 0

/-- The functions of this judge. -/
def instructionCount (program : Program) : Float :=
  Float.ofNat program.size

/-- Settings of two searches with two slots each. The second one takes diversity into account. -/
def twinConfig (second : Bool) : EvolutionConfig where
  populationSize := 2
  tournamentSize := 1
  progressEvery := 1
  mode := if second then .qualityDiversity else .standard
  migration :=
    { probability := 1
      run := if second then 1 else 0
      splice := if second then .replaceBottomHalf else .replaceTopHalf }
  randomSeed := none

/-- Two searches, the first one for programs of one instruction and the second one for empty
programs. -/
def twinEngine (second : Bool) : Engine Copyist Blank Blank where
  config := twinConfig second
  generator := ⟨if second then .empty else copier⟩
  mutator := ⟨⟩
  evaluator := ⟨⟩
  population := .ofSize 2
  strategy := if second then .qualityDiversity else .standard
  reporter := .ofInterval 1 0
  best := none
  earlyObserved := []
  individuals := 0
  generation := 0
  seeded := false

/-- Two searches over one store. -/
abbrev Twins : Type :=
  Fleet (fun _ : Bool => Copyist) (fun _ => Blank) fun _ => Blank

/-- Two searches that have not begun. -/
def idleTwins : Twins where
  memory := .empty
  engine := twinEngine
  pending second := .done (twinEngine second)
  agenda _ := []

/-- Both searches in turn, so many times. -/
def inTurn (rounds : Nat) : List Bool :=
  (List.replicate rounds [true, false]).flatten

/-- The two searches seed their populations and go through a generation, call by call in turn. In
the seeding the first one fails to report. -/
def metTwins : Twins :=
  let begun := (idleTwins.takeUp false).takeUp true
  let seeded := (inTurn 4).foldl advance (((inTurn 4).foldl advance begun).refuse false .poisoned)
  (inTurn 13).foldl advance ((seeded.takeUp false).takeUp true)

theorem reachable_metTwins : Reachable idleTwins metTwins := by
  have idle (i : Bool) : idleTwins.pending i = .done (idleTwins.engine i) := rfl
  have begun := (Reachable.start.takeUp idle false).takeUp idle true
  have seeding := (begun.foldl_advance idle (inTurn 4)).refuse false .poisoned
  have seeded := seeding.foldl_advance idle (inTurn 4)
  exact ((seeded.takeUp idle false).takeUp idle true).foldl_advance idle (inTurn 13)

/-- Both searches have published, and a migrant of the first one stands in a slot of the second
one. It has come with the fitness that is its own. -/
theorem pairs_stay_together_of_pair :
    Reachable idleTwins metTwins ∧ (∀ i, (metTwins.engine i).generation = 1) ∧
      (∀ i, (metTwins.memory.membersOf (twinConfig i).migration.run).length = 2) ∧
      (∃ slot, (metTwins.engine true).population.Holds slot ∧ slot.program = copier ∧
        slot.fitness = 1) ∧
      (∀ i, (metTwins.engine i).Vouches (common twinConfig instructionCount instructionCount)) ∧
      (common twinConfig instructionCount instructionCount).Trusts metTwins.memory := by
  have made (i : Bool) : Engine.new (twinConfig i) ⟨if i then .empty else copier⟩ ⟨⟩ ⟨⟩ 0 =
      .ok (idleTwins.engine i) := by
    cases i <;> rfl
  have migrant : ((metTwins.engine true).population.slot? 1).any
      (fun slot => slot.program = copier && slot.fitness = 1) = true := by
    decide +kernel
  obtain ⟨slot, found, same⟩ := (Option.any_eq_true _ _).mp migrant
  simp only [Bool.and_eq_true, decide_eq_true_eq] at same
  refine ⟨reachable_metTwins, by decide +kernel, by decide +kernel,
    ⟨slot, ⟨1, found⟩, same⟩, ?_⟩
  refine (pairs_stay_together made (fun i => ⟨rfl, rfl⟩) rfl ?_ reachable_metTwins).2
  exact fun _ => ⟨fun _ _ => rfl, fun _ _ => rfl⟩

end Fleet

end EvoSearch
