/-
# Searches on different scales

A search that exchanges nothing with others depends on fitnesses only through their order. If
another judge puts the same fitnesses on another scale, one on which they are in the same order, and
zero, NaN and what is finite are what they were, then the search goes the same way: it draws the
same, and keeps the same programs everywhere, with fitnesses and a hurdle on the new scale.

Searches for diversity are left out: their tournaments add other numbers to the fitnesses.
-/

import EvoSearch.Proofs.Grading
import EvoSearch.Proofs.Likeness

namespace EvoSearch

open Numeric Script EvoSearch.Random

variable {related : Float → Float → Prop}

/-- What two strategies know is related, and neither goes by diversity. -/
inductive Strategy.Graded (related : Float → Float → Prop) : Strategy → Strategy → Prop
  | standard : Graded related .standard .standard
  | hurdles {hurdle other : Hurdle} : related hurdle.value other.value →
      Graded related (.hurdles hurdle) (.hurdles other)
  | mapElites {archive other : Archive} : archive.Graded related other →
      Graded related (.mapElites archive) (.mapElites other)

theorem Strategy.Graded.symm {strategy other : Strategy} (graded : Graded related strategy other) :
    Graded (fun y x => related x y) other strategy := by
  cases graded with
  | standard => exact .standard
  | hurdles holds => exact .hurdles holds
  | mapElites archives => exact .mapElites archives.symm

/-- Judges that come to related verdicts on a program in both tiers, and to the same number of train
steps, are such judges still. -/
structure GradesAlike {ε δ : Type} [Evaluator ε] [Evaluator δ] (related : Float → Float → Prop)
    (judges : ε → δ → Prop) : Prop where
  evaluate : ∀ judge other, judges judge other → ∀ program,
    related (Evaluator.evaluate program judge).1 (Evaluator.evaluate program other).1 ∧
      judges (Evaluator.evaluate program judge).2 (Evaluator.evaluate program other).2
  evaluateEarly : ∀ judge other, judges judge other → ∀ program,
    related (Evaluator.evaluateEarly program judge).1 (Evaluator.evaluateEarly program other).1 ∧
      judges (Evaluator.evaluateEarly program judge).2 (Evaluator.evaluateEarly program other).2
  trainSteps_eq : ∀ judge other, judges judge other →
    Evaluator.trainSteps other = Evaluator.trainSteps judge

theorem forall₂_toList {value other : Option Float} (holds : Option.Rel related value other) :
    List.Forall₂ related value.toList other.toList := by
  cases holds with
  | none => exact .nil
  | some holds => exact .cons holds .nil

section Likeness

variable {ε δ : Type} [Evaluator ε] [Evaluator δ] {judges : ε → δ → Prop}

/-- How searches are compared that differ in the scale of their fitnesses, and exchange nothing. -/
def grading (related : Float → Float → Prop) (judges : ε → δ → Prop) : Resemblance ε δ where
  settings config := config.migration.probability ≤ 0
  scored := GradedAs related
  early := Option.Rel related
  judges := judges
  strategies := Strategy.Graded related
  observed := List.Forall₂ related

variable (agree : GradesAlike related judges) {judge : ε} {other : δ}
include agree

theorem verdict_full (alike : judges judge other) (program : Program) :
    (grading related judges).Verdict program (Evaluation.full program judge)
      (Evaluation.full program other) := by
  obtain ⟨holds, judges⟩ := agree.evaluate judge other alike program
  exact ⟨⟨rfl, holds⟩, .none, judges⟩

theorem verdict_seed (alike : judges judge other) (program : Program) :
    (grading related judges).Verdict program (Evaluation.seed program judge)
      (Evaluation.seed program other) := by
  obtain ⟨holds, judges⟩ := agree.evaluate judge other alike program
  obtain ⟨early, judges⟩ := agree.evaluateEarly _ _ judges program
  exact ⟨⟨rfl, holds⟩, .some early, judges⟩

/-- Both candidates clear their hurdles, or neither does. -/
theorem verdict_hurdle (keeps : KeepsOrder related) (alike : judges judge other)
    {hurdle counterpart : Hurdle} (hurdles : related hurdle.value counterpart.value)
    (program : Program) :
    (grading related judges).Verdict program (hurdle.evaluate program judge)
      (counterpart.evaluate program other) := by
  obtain ⟨early, early_judges⟩ := agree.evaluateEarly judge other alike program
  obtain ⟨holds, judges⟩ := agree.evaluate _ _ early_judges program
  have set_eq : counterpart.isSet = hurdle.isSet := keeps.bne_zero_eq hurdles
  rw [Hurdle.evaluate, Hurdle.evaluate, set_eq]
  split
  · simp only [keeps.lt_iff _ _ hurdles _ _ early]
    split
    · exact ⟨⟨rfl, holds⟩, .some early, judges⟩
    · exact ⟨⟨rfl, early⟩, .some early, early_judges⟩
  · exact verdict_full agree alike program

/-- On scales that are in the same order, searches go alike. -/
def gradingLikeness (keeps : KeepsOrder related) : Likeness ε δ where
  toResemblance := grading related judges
  scored_vacant := ⟨rfl, keeps.zero⟩
  early_none := .none
  observed_nil := .nil
  program_eq _ _ holds := holds.1
  ranksAlike := keeps.ranksAlike_scored
  tournamentScore := by
    rintro _ _ (_ | _ | _) <;> exact ⟨rfl, rfl⟩
  seed _ _ alike program := verdict_seed agree alike program
  child := by
    rintro judge other alike _ _ (_ | hurdles | _) program
    · exact verdict_full agree alike program
    · exact verdict_hurdle agree keeps alike hurdles program
    · exact verdict_full agree alike program
  collect _ _ paired _ _ early := List.rel_append paired (forall₂_toList early)
  collectsEarly := by
    rintro _ _ (_ | _ | _) values others paired _ _ early
    · exact paired
    · exact List.rel_append paired (forall₂_toList early)
    · exact paired

omit [Evaluator ε] [Evaluator δ] agree in
theorem GradesAlike.symm [Evaluator ε] [Evaluator δ] (agree : GradesAlike related judges) :
    GradesAlike (fun y x => related x y) fun (other : δ) (judge : ε) => judges judge other where
  evaluate other judge alike program := agree.evaluate judge other alike program
  evaluateEarly other judge alike program := agree.evaluateEarly judge other alike program
  trainSteps_eq other judge alike := (agree.trainSteps_eq judge other alike).symm

end Likeness

section Draws

variable {ρ : Type} [WordStream ρ] {patience : Nat}

/-- Chance brings what a stream of words says, while the store and the clock may say anything. -/
def Act.Draws (patience : Nat) : (effect : Effect) → effect.Answer → ρ → ρ → Prop
  | .chance choice, answer, words, after => choice.serve patience words = .ok (answer, after)
  | .store _, _, words, after => after = words
  | .clock, _, words, after => after = words

theorem Act.repeats_draws (choice : Choice) :
    Act.Repeats (Act.Draws patience) (Eq (α := ρ)) (.chance choice) := by
  rintro words _ answer after rfl drawn
  refine ⟨⟨answer, after, drawn⟩, fun given last given_drawn => ?_⟩
  obtain ⟨rfl, rfl⟩ := Prod.mk.inj (Except.ok.inj (drawn.symm.trans given_drawn))
  exact ⟨rfl, rfl⟩

theorem Act.echoes_draws_clock :
    Act.Echoes (Act.Draws patience) (Eq (α := ρ)) .clock .clock fun _ _ => True := by
  rintro _ _ _ words rfl rfl
  exact ⟨⟨(0 : Nat), words, rfl⟩, fun _ _ same => ⟨trivial, same.symm⟩⟩

/-- Whatever the store says to two calls, no words are used. -/
theorem Act.echoes_draws_store {call other : Store.Call} (given : Except Store.Error other.Reply) :
    Act.Echoes (Act.Draws patience) (Eq (α := ρ)) (.store call) (.store other) fun _ _ => True := by
  rintro _ _ _ words rfl rfl
  exact ⟨⟨given, words, rfl⟩, fun _ _ same => ⟨trivial, same.symm⟩⟩

/-- What runs on a stage runs on the words of the stage alone, whatever the store makes of it. -/
theorem Act.endsIn_draws_of_run {σ α : Type} [Store.Backend σ] {act : Act α} {time : Nat}
    {outage : Store.Outage} {stage after : Act.Stage σ ρ} {value : α}
    (run : act.run patience outage time stage = .ok (value, after)) :
    act.EndsIn (Act.Draws patience) stage.words value after.words := by
  have faithful (effect : Effect) (before : Act.Stage σ ρ) (answer : effect.Answer)
      (after : Act.Stage σ ρ)
      (served : Act.serve patience outage time effect before = .ok (answer, after)) :
      Act.Draws patience effect answer before.words after.words := by
    cases effect with
    | chance choice =>
      rw [Act.serve] at served
      split at served
      · cases served
      · next drawn =>
        cases served
        exact drawn
    | store call =>
      rw [Act.serve] at served
      split at served
      · cases served
      · cases served
        rfl
    | clock =>
      cases served
      rfl
  exact Script.endsIn_of_run faithful run

end Draws

namespace Engine

variable {γ μ ε δ ρ : Type} [Evaluator ε] [Evaluator δ] [WordStream ρ] {judges : ε → δ → Prop}
  {engine : Engine γ μ ε} {other : Engine γ μ δ}

theorem carries_grading (agree : GradesAlike related judges) (keeps : KeepsOrder related)
    (patience : Nat) : Carries (Act.Draws patience) (Eq (α := ρ)) γ μ
      (gradingLikeness agree keeps) where
  chance := Act.repeats_draws
  clock := Act.echoes_draws_clock
  diversity _ _ _ := Act.echoes_draws_store (.ok ())
  progress _ _ _ _ _ _ _ _ := Act.echoes_draws_store (.ok ())
  strategy engine other alike := by
    have strategies : Strategy.Graded related engine.strategy other.strategy := alike.strategies
    rw [applyStrategy, applyStrategy]
    revert strategies
    generalize mine : engine.strategy = strategy
    generalize theirs : other.strategy = counterpart
    intro strategies
    cases strategies with
    | standard => exact .done alike
    | hurdles hurdles =>
      exact .done { alike with
        strategies := .hurdles (keeps.rel_recompute hurdles alike.observed)
        observed := .nil }
    | mapElites archives =>
      apply (archives.paired_apply keeps (fun _ _ slots => slots.scored)
        (fun _ _ elites => slotsAlike_fresh elites Option.Rel.none) alike.population).bind
      rintro ⟨_, archive, population⟩ ⟨_, counterpart, counterparts⟩ ⟨graded, pairs⟩
      exact .done { alike with population := pairs, strategies := .mapElites graded }
  exchange engine other alike := by
    have idle : engine.config.migration.probability ≤ 0 := alike.settings
    have migration_eq : other.config.migration = engine.config.migration := by
      rw [alike.config_eq]
    rw [migrate, migrate, migration_eq, MigrationConfig.migrate, MigrationConfig.migrate,
      if_pos idle, if_pos idle]
    exact mirrors_done alike

omit [WordStream ρ] in
theorem Alike.of_symm (agree : GradesAlike related judges) (keeps : KeepsOrder related)
    (alike : other.Alike (gradingLikeness agree.symm keeps.symm) engine) :
    engine.Alike (gradingLikeness agree keeps) other := by
  have config_eq : other.config = { engine.config with mode := other.config.mode } := by
    rw [alike.config_eq]
  have slots (slot counterpart : Slot)
      (holds : SlotsAlike (gradingLikeness agree.symm keeps.symm) slot counterpart) :
      SlotsAlike (gradingLikeness agree keeps) counterpart slot :=
    ⟨⟨holds.scored.1.symm, holds.scored.2⟩, optionRel_symm (fun _ _ early => early) holds.early,
      holds.diversity_eq.symm⟩
  exact
    { settings := by
        rw [alike.config_eq]
        exact alike.settings
      config_eq
      generator_eq := alike.generator_eq.symm
      mutator_eq := alike.mutator_eq.symm
      judges := alike.judges
      population := (List.Forall₂.imp slots alike.population).flip
      strategies := Strategy.Graded.symm alike.strategies
      reporter_eq := by
        rw [alike.reporter_eq]
      best := optionRel_symm (fun _ _ scored => ⟨scored.1.symm, scored.2⟩) alike.best
      observed := List.Forall₂.flip alike.observed
      individuals_eq := alike.individuals_eq.symm
      generation_eq := alike.generation_eq.symm
      seeded_eq := alike.seeded_eq.symm }

end Engine

/-- A judge whose fitnesses are put on another scale, in both tiers. -/
structure Regraded (grade : Float → Float) (ε : Type) where
  inner : ε

instance {grade : Float → Float} {ε : Type} [Evaluator ε] : Evaluator (Regraded grade ε) where
  evaluate program judge :=
    let (fitness, inner) := Evaluator.evaluate program judge.inner
    (grade fitness, ⟨inner⟩)
  evaluateEarly program judge :=
    let (fitness, inner) := Evaluator.evaluateEarly program judge.inner
    (grade fitness, ⟨inner⟩)
  trainSteps judge := Evaluator.trainSteps judge.inner

/-- All fitnesses that a judge gives, in either tier, are such as arise. -/
def Gives (ε : Type) [Evaluator ε] (arises : Float → Prop) : Prop :=
  ∀ program (judge : ε), arises (Evaluator.evaluate program judge).1 ∧
    arises (Evaluator.evaluateEarly program judge).1

theorem gradesAlike_regraded {ε : Type} [Evaluator ε] {arises : Float → Prop}
    {grade : Float → Float} (gives : Gives ε arises) :
    GradesAlike (ArisesAs arises grade)
      fun (judge : ε) (other : Regraded grade ε) => other.inner = judge where
  evaluate := by
    rintro _ other rfl program
    exact ⟨⟨(gives program other.inner).1, sameNumber_iff.mpr rfl⟩, rfl⟩
  evaluateEarly := by
    rintro _ other rfl program
    exact ⟨⟨(gives program other.inner).2, sameNumber_iff.mpr rfl⟩, rfl⟩
  trainSteps_eq := by
    rintro _ other rfl
    rfl

namespace Engine

variable {γ μ ε ρ : Type} [Evaluator ε] [WordStream ρ] {arises : Float → Prop}
  {grade : Float → Float} {engine : Engine γ μ ε} {other : Engine γ μ (Regraded grade ε)}

/-- Two searches are at the same point, the second one with the fitnesses of the first on another
scale. -/
structure Rescales (grade : Float → Float) (engine : Engine γ μ ε)
    (other : Engine γ μ (Regraded grade ε)) : Prop where
  members : List.Forall₂ (GradedAs (GradesTo grade)) engine.population.members
    other.population.members
  best : Option.Rel (GradedAs (GradesTo grade)) engine.best other.best
  hurdle : Option.Rel (fun hurdle counterpart =>
    GradesTo grade hurdle.value counterpart.value) engine.hurdle? other.hurdle?
  archive : Option.Rel (Archive.Graded (GradesTo grade)) engine.archive?
    other.archive?
  trainSteps_eq : other.trainSteps = engine.trainSteps

theorem Alike.rescales {judges : ε → Regraded grade ε → Prop}
    {agree : GradesAlike (ArisesAs arises grade) judges}
    {keeps : KeepsOrder (ArisesAs arises grade)}
    (alike : engine.Alike (gradingLikeness agree keeps) other) : engine.Rescales grade other := by
  have strategies : Strategy.Graded (ArisesAs arises grade) engine.strategy other.strategy :=
    alike.strategies
  have regraded (scored counterpart : Scored)
      (holds : GradedAs (ArisesAs arises grade) scored counterpart) :
      GradedAs (GradesTo grade) scored counterpart := ⟨holds.1, holds.2.2⟩
  have notes : Option.Rel (fun hurdle counterpart =>
        GradesTo grade hurdle.value counterpart.value) engine.hurdle? other.hurdle? ∧
      Option.Rel (Archive.Graded (GradesTo grade)) engine.archive?
        other.archive? := by
    rw [hurdle?, hurdle?, archive?, archive?]
    revert strategies
    generalize engine.strategy = strategy
    generalize other.strategy = counterpart
    rintro (_ | hurdles | archives)
    · exact ⟨.none, .none⟩
    · exact ⟨.some hurdles.2, .none⟩
    · exact ⟨.none, .some ⟨archives.grid_eq,
        fun cell => optionRel_imp regraded (archives.occupants cell)⟩⟩
  exact
    { members := List.rel_map (fun _ _ slots => regraded _ _ slots.scored) alike.population
      best := optionRel_imp regraded alike.best
      hurdle := notes.1
      archive := notes.2
      trainSteps_eq := agree.trainSteps_eq _ _ alike.judges }

omit [Evaluator ε] in
/-- The strategies of a mode that is not about diversity are related to begin with. -/
theorem graded_of_new {δ : Type} {related : Float → Float → Prop} (keeps : KeepsOrder related)
    {config : EvolutionConfig} {generator : γ} {mutator : μ} {evaluator : ε} {judge : δ}
    {time later : Nat} {other : Engine γ μ δ}
    (ranked : config.mode ≠ .qualityDiversity)
    (made : new config generator mutator evaluator time = .ok engine)
    (other_made : new config generator mutator judge later = .ok other) :
    Strategy.Graded related engine.strategy other.strategy := by
  obtain ⟨_, strategy, strategy_eq, rfl⟩ := of_new made
  obtain ⟨_, counterpart, counterpart_eq, rfl⟩ := of_new other_made
  obtain rfl := Except.ok.inj (strategy_eq.symm.trans counterpart_eq)
  dsimp only
  revert strategy_eq ranked
  cases config.mode with
  | standard =>
    rintro _ ⟨⟩
    exact .standard
  | hurdles =>
    rintro _ ⟨⟩
    exact .hurdles keeps.zero
  | qualityDiversity => exact fun ranked => absurd rfl ranked
  | mapElites sizes =>
    intro _ strategy_eq
    rw [Strategy.ofMode] at strategy_eq
    split at strategy_eq
    · cases strategy_eq
      exact .mapElites (Archive.graded_ofGrid _)
    · cases strategy_eq

variable [Generator γ] [Mutator μ]

/-- Selection depends on fitnesses only through their order. Take two searches with the same
settings, under which nothing is exchanged and diversity does not count, and run them on the same
words, whatever the store and the clock say. If the judge of the second one puts the fitnesses of
the first on another scale, then wherever one of them has ended its seeding and so many generations,
the other one comes to their end as well. Slot by slot, in every cell of the archive, and in the
best so far, the two then have the same programs, with fitnesses that are the same numbers but for
the scale; so is the hurdle. They have used up the same words, and taken as many train steps. -/
theorem rescales_of_grading {config : EvolutionConfig} {generator : γ} {mutator : μ}
    {evaluator : ε} {time later : Nat} (grading : IsGrading arises grade)
    (gives : Gives ε arises) (idle : config.migration.probability ≤ 0)
    (ranked : config.mode ≠ .qualityDiversity)
    (made : new config generator mutator evaluator time = .ok engine)
    (regraded : new config generator mutator (Regraded.mk evaluator) later = .ok other)
    (ρ : Type) [WordStream ρ] (patience : Nat) (words : ρ) (generations : Nat) :
    (∀ reached after,
      (engine.course generations).EndsIn (Act.Draws patience) words reached after →
        (other.course generations).EnsuresIn (Act.Draws patience) words fun counterpart last =>
          reached.Rescales grade counterpart ∧ after = last) ∧
    ∀ counterpart last,
      (other.course generations).EndsIn (Act.Draws patience) words counterpart last →
        (engine.course generations).EnsuresIn (Act.Draws patience) words fun reached after =>
          reached.Rescales grade counterpart ∧ last = after := by
  have keeps := grading.keepsOrder
  have agree : GradesAlike (ArisesAs arises grade)
      fun (judge : ε) (counterpart : Regraded grade ε) => counterpart.inner = judge :=
    gradesAlike_regraded gives
  have alike : engine.Alike (gradingLikeness agree keeps) other :=
    alike_of_new made regraded idle rfl (graded_of_new keeps ranked made regraded)
  have alike_back : other.Alike (gradingLikeness agree.symm keeps.symm) engine :=
    alike_of_new regraded made idle rfl (graded_of_new keeps.symm ranked regraded made)
  constructor
  · intro reached after ends
    apply (alike.mirrors_course (carries_grading agree keeps patience) generations words words
      reached after rfl ends).mono
    rintro counterpart last ⟨reached_alike, same⟩
    exact ⟨reached_alike.rescales, same⟩
  · intro counterpart last ends
    apply (alike_back.mirrors_course (carries_grading agree.symm keeps.symm patience) generations
      words words counterpart last rfl ends).mono
    rintro reached after ⟨counterpart_alike, same⟩
    exact ⟨(counterpart_alike.of_symm agree keeps).rescales, same⟩

/-- Twice as much of what is zero or one is on another scale. -/
theorem isGrading_doubling : IsGrading (fun x => x = 0 ∨ x = 1) fun x => x + x where
  arises_zero := .inl rfl
  zero := .inl (by decide +kernel)
  isNaN_eq := by
    rintro _ (rfl | rfl) <;> decide +kernel
  isFinite_eq := by
    rintro _ (rfl | rfl) <;> decide +kernel
  lt_iff := by
    rintro _ (rfl | rfl) _ (rfl | rfl) <;> decide +kernel

/-- Two slots and an archive of four cells. -/
def squareConfig : EvolutionConfig :=
  { pairConfig 0 .replaceTopHalf with mode := .mapElites [2, 2] }

/-- A judge who is worth one to every program, and one who is worth two. -/
theorem rescales_of_grading_of_pair : ∃ (engine reached : Engine Blank Blank Tally)
    (other : Engine Blank Blank (Regraded (fun x => x + x) Tally)) (after : Tape),
    new squareConfig ⟨⟩ ⟨⟩ ⟨0⟩ 0 = .ok engine ∧ new squareConfig ⟨⟩ ⟨⟩ ⟨⟨0⟩⟩ 5 = .ok other ∧
    (engine.course 1).EndsIn (Act.Draws 1) Act.sharedStage.words reached after ∧
    (other.course 1).EnsuresIn (Act.Draws 1) Act.sharedStage.words fun counterpart last =>
      reached.Rescales (fun x => x + x) counterpart ∧ after = last := by
  obtain ⟨engine, made⟩ : ∃ engine : Engine Blank Blank Tally,
      new squareConfig ⟨⟩ ⟨⟩ ⟨0⟩ 0 = .ok engine := ⟨_, rfl⟩
  obtain ⟨other, regraded⟩ : ∃ other : Engine Blank Blank (Regraded (fun x => x + x) Tally),
      new squareConfig ⟨⟩ ⟨⟩ ⟨⟨0⟩⟩ 5 = .ok other := ⟨_, rfl⟩
  have completes : (Act.run 1 .none 9 (engine.course 1) Act.sharedStage).toOption.any
      (fun outcome => outcome.1.generation == 1) = true := by
    obtain rfl := Except.ok.inj made
    decide +kernel
  obtain ⟨⟨reached, after⟩, run, _⟩ := Act.exists_of_any_toOption completes
  have ends := Act.endsIn_draws_of_run run
  have gives : Gives Tally fun x => x = 0 ∨ x = 1 := fun _ _ => ⟨.inr rfl, .inr rfl⟩
  have idle : squareConfig.migration.probability ≤ 0 := by decide +kernel
  exact ⟨engine, reached, other, after.words, made, regraded, ends,
    (rescales_of_grading isGrading_doubling gives idle nofun made regraded Tape 1
      Act.sharedStage.words 1).1 reached after.words ends⟩

end Engine

end EvoSearch
