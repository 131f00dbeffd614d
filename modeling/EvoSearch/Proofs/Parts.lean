/-
# A generation part by part

Seeding a population and going through a generation are sequences of parts, and a part writes a slot
at most once. What an engine looks like between two parts is therefore all that there is to see of
it: everything that is ever put into a slot stands there at the end of some part.

`Passes` is the course of such a sequence, with the engines behind its parts.
-/

import EvoSearch.Proofs.Generation

namespace EvoSearch

open Script

theorem Draw.act_foldlM {α β : Type} (f : β → α → Draw β) (items : List α) (start : β) :
    (items.foldlM f start : Draw β).act =
      items.foldlM (fun state item => (f state item).act) start := by
  induction items generalizing start with
  | nil => rfl
  | cons item items ih =>
    rw [List.foldlM_cons, List.foldlM_cons, act, lift_bind]
    exact congrArg (_ >>= ·) (funext fun state => ih state)

/-- A maker and changer of programs that leaves them all empty. -/
structure Blank where

instance : Generator Blank where
  generate blank := pure (.empty, blank)

instance : Mutator Blank where
  mutate _ program blank := pure (program, blank)

/-- A judge for whom every program is worth one in both tiers, and who counts what it is asked. -/
structure Tally where
  asked : Nat

instance : Evaluator Tally where
  evaluate _ tally := (1, ⟨tally.asked + 1⟩)
  evaluateEarly _ tally := (1, ⟨tally.asked + 1⟩)
  trainSteps tally := tally.asked

namespace Engine

variable {γ μ ε : Type}

/-- A part of what an engine does. -/
abbrev Part (γ μ ε : Type) : Type := Engine γ μ ε → Act (Engine γ μ ε)

/-- One part after another. -/
def perform (parts : List (Part γ μ ε)) (engine : Engine γ μ ε) : Act (Engine γ μ ε) :=
  parts.foldlM (fun engine part => part engine) engine

/-- Performing parts takes an engine to another one. Gives the dialogue of all parts, and the engine
behind each of them. -/
inductive Passes : List (Part γ μ ε) → Engine γ μ ε → List Surroundings.Line →
    List (Engine γ μ ε) → Engine γ μ ε → Prop
  | nil (engine : Engine γ μ ε) : Passes [] engine [] [] engine
  | cons {part : Part γ μ ε} {parts : List (Part γ μ ε)} {engine mid last : Engine γ μ ε}
      {first rest : List Surroundings.Line} {moments : List (Engine γ μ ε)} :
      (part engine).Yields first mid → Passes parts mid rest moments last →
      Passes (part :: parts) engine (first ++ rest) (mid :: moments) last

variable {part : Part γ μ ε} {parts others : List (Part γ μ ε)} {engine last : Engine γ μ ε}
  {dialogue : List Surroundings.Line} {moments : List (Engine γ μ ε)}

theorem passes_nil_iff :
    Passes [] engine dialogue moments last ↔ dialogue = [] ∧ moments = [] ∧ last = engine := by
  constructor
  · rintro ⟨⟩
    exact ⟨rfl, rfl, rfl⟩
  · rintro ⟨rfl, rfl, rfl⟩
    exact .nil _

theorem passes_cons_iff : Passes (part :: parts) engine dialogue moments last ↔
    ∃ first mid rest behind, (part engine).Yields first mid ∧
      Passes parts mid rest behind last ∧ dialogue = first ++ rest ∧ moments = mid :: behind := by
  constructor
  · rintro (_ | ⟨yields, passes⟩)
    exact ⟨_, _, _, _, yields, passes, rfl, rfl⟩
  · rintro ⟨first, mid, rest, behind, yields, passes, rfl, rfl⟩
    exact .cons yields passes

theorem passes_single_iff : Passes [part] engine dialogue moments last ↔
    (part engine).Yields dialogue last ∧ moments = [last] := by
  rw [passes_cons_iff]
  constructor
  · rintro ⟨first, mid, _, _, yields, passes, rfl, rfl⟩
    obtain ⟨rfl, rfl, rfl⟩ := passes_nil_iff.mp passes
    exact ⟨by rwa [List.append_nil], rfl⟩
  · rintro ⟨yields, rfl⟩
    exact ⟨dialogue, last, [], [], yields, .nil last, (List.append_nil _).symm, rfl⟩

theorem passes_append_iff : Passes (parts ++ others) engine dialogue moments last ↔
    ∃ first before mid rest behind, Passes parts engine first before mid ∧
      Passes others mid rest behind last ∧ dialogue = first ++ rest ∧
      moments = before ++ behind := by
  induction parts generalizing engine dialogue moments with
  | nil =>
    constructor
    · intro passes
      exact ⟨[], [], engine, dialogue, moments, .nil engine, passes, rfl, rfl⟩
    · rintro ⟨_, _, _, rest, behind, nothing, passes, rfl, rfl⟩
      obtain ⟨rfl, rfl, rfl⟩ := passes_nil_iff.mp nothing
      exact passes
  | cons part parts ih =>
    rw [List.cons_append, passes_cons_iff]
    constructor
    · rintro ⟨first, mid, _, _, yields, passes, rfl, rfl⟩
      obtain ⟨second, before, last, rest, behind, front, back, rfl, rfl⟩ := ih.mp passes
      exact ⟨first ++ second, mid :: before, last, rest, behind, .cons yields front, back,
        (List.append_assoc ..).symm, rfl⟩
    · rintro ⟨_, _, mid, rest, behind, front, back, rfl, rfl⟩
      obtain ⟨first, head, second, before, yields, passes, rfl, rfl⟩ := passes_cons_iff.mp front
      exact ⟨first, head, second ++ rest, before ++ behind, yields,
        ih.mpr ⟨second, before, mid, rest, behind, passes, back, rfl, rfl⟩,
        List.append_assoc .., rfl⟩

theorem yields_perform_iff : (perform parts engine).Yields dialogue last ↔
    ∃ moments, Passes parts engine dialogue moments last := by
  induction parts generalizing engine dialogue with
  | nil =>
    rw [perform, List.foldlM_nil, yields_pure_iff]
    simp [passes_nil_iff]
  | cons part parts ih =>
    rw [perform, List.foldlM_cons, yields_bind_iff]
    constructor
    · rintro ⟨first, mid, rest, yields, rest_yields, rfl⟩
      obtain ⟨moments, passes⟩ := ih.mp rest_yields
      exact ⟨mid :: moments, .cons yields passes⟩
    · rintro ⟨moments, passes⟩
      obtain ⟨first, mid, rest, behind, yields, others, rfl, rfl⟩ := passes_cons_iff.mp passes
      exact ⟨first, mid, rest, yields, ih.mpr ⟨behind, others⟩, rfl⟩

/-- Note the best of a population that has just been seeded. -/
def finishSeeding : Part γ μ ε :=
  fun engine => { engine with seeded := true }.updateBest

/-- Note the best of a population at the end of a generation. -/
def finishGeneration : Part γ μ ε :=
  fun engine => { engine with generation := engine.generation + 1 }.updateBest

/-- The parts of a generation from the chance to migrate on. -/
def closingParts : List (Part γ μ ε) :=
  [migrate, finishGeneration, report]

/-- The parts that fill `count` slots from `first` on. -/
def fillingParts (fill : Nat → Part γ μ ε) (first count : Nat) : List (Part γ μ ε) :=
  (List.range' first count).map fill

/-- What an engine keeps while its slots are written. -/
structure Agrees (engine next : Engine γ μ ε) : Prop where
  config_eq : next.config = engine.config
  strategy_eq : next.strategy = engine.strategy
  best_eq : next.best = engine.best
  size_eq : next.population.size = engine.population.size

theorem Agrees.trans {mid : Engine γ μ ε} (first : engine.Agrees mid) (second : mid.Agrees last) :
    engine.Agrees last where
  config_eq := second.config_eq.trans first.config_eq
  strategy_eq := second.strategy_eq.trans first.strategy_eq
  best_eq := second.best_eq.trans first.best_eq
  size_eq := second.size_eq.trans first.size_eq

/-- A part writes the slot at an index, and nothing else that others can see. -/
def Writes (part : Part γ μ ε) (index : Nat) : Prop :=
  ∀ engine dialogue next, (part engine).Yields dialogue next →
    Quiet dialogue ∧ engine.Agrees next ∧ index < engine.population.size ∧
      ∃ slot, next.population = engine.population.set index slot

/-- What filling slots comes to: each of them is written once, and the others never. -/
structure Fills (first count : Nat) (engine : Engine γ μ ε) (moments : List (Engine γ μ ε))
    (last : Engine γ μ ε) : Prop where
  agrees : engine.Agrees last
  outside : ∀ index, index < first ∨ first + count ≤ index →
    last.population.slot? index = engine.population.slot? index
  between : ∀ moment ∈ moments, ∀ index,
    moment.population.slot? index = engine.population.slot? index ∨
      moment.population.slot? index = last.population.slot? index

theorem fills_of_passes {fill : Nat → Part γ μ ε} (writes : ∀ index, Writes (fill index) index)
    {first count : Nat} (passes : Passes (fillingParts fill first count) engine dialogue moments
      last) : Quiet dialogue ∧ Fills first count engine moments last := by
  induction count generalizing first engine dialogue moments with
  | zero =>
    obtain ⟨rfl, rfl, rfl⟩ := passes_nil_iff.mp passes
    exact ⟨.nil, ⟨rfl, rfl, rfl, rfl⟩, fun _ _ => rfl,
      fun _ moment_mem => absurd moment_mem List.not_mem_nil⟩
  | succ count ih =>
    rw [fillingParts, List.range'_succ, List.map_cons] at passes
    obtain ⟨_, mid, _, behind, yields, others, rfl, rfl⟩ := passes_cons_iff.mp passes
    obtain ⟨quiet, agrees, within, slot, population_eq⟩ := writes first _ _ _ yields
    obtain ⟨rest_quiet, fills⟩ := ih others
    have elsewhere (index : Nat) (apart : first ≠ index) :
        mid.population.slot? index = engine.population.slot? index := by
      rw [population_eq, Population.slot?_set, if_neg apart]
    have written (index : Nat) : mid.population.slot? index = engine.population.slot? index ∨
        mid.population.slot? index = last.population.slot? index := by
      by_cases same : first = index
      · exact .inr (fills.outside index (by omega)).symm
      · exact .inl (elsewhere index same)
    refine ⟨quiet.append rest_quiet, agrees.trans fills.agrees, ?_, ?_⟩
    · intro index apart
      rw [fills.outside index (by omega), elsewhere index (by omega)]
    · intro moment moment_mem index
      rcases List.mem_cons.mp moment_mem with rfl | later
      · exact written index
      · rcases fills.between moment later index with same | same
        · rw [same]
          exact written index
        · exact .inr same

section Seeding

variable [Generator γ] [Mutator μ] [Evaluator ε]

/-- Fill a slot with a seed. -/
def seedPart (index : Nat) : Part γ μ ε :=
  fun engine => (engine.seedSlot index).act

theorem writes_seedPart (index : Nat) :
    Writes (seedPart (γ := γ) (μ := μ) (ε := ε) index) index := by
  intro engine dialogue next yields
  obtain ⟨talk, slot_yields⟩ := Draw.yields_of_act yields
  obtain ⟨within, _, _, _, rfl⟩ := of_seedSlot slot_yields
  exact ⟨Draw.quiet_of_act yields, ⟨rfl, rfl, rfl, Population.size_set ..⟩, within, _, rfl⟩

/-- The parts of the seeding of a population of the given size. -/
def seedingParts (size : Nat) : List (Part γ μ ε) :=
  fillingParts seedPart 0 size ++ [finishSeeding, report]

theorem seed_eq_perform (engine : Engine γ μ ε) :
    engine.seed = perform (seedingParts engine.population.size) engine := by
  rw [seed, Draw.act_foldlM, perform, seedingParts, fillingParts, List.foldlM_append,
    List.foldlM_map, List.range_eq_range']
  simp only [List.foldlM_cons, List.foldlM_nil, bind_pure]
  rfl

end Seeding

variable [Mutator μ] [Evaluator ε]

/-- Fill a slot with a child. -/
def breedPart (index : Nat) : Part γ μ ε :=
  fun engine => (engine.breedSlot index).act

theorem writes_breedPart (index : Nat) :
    Writes (breedPart (γ := γ) (μ := μ) (ε := ε) index) index := by
  intro engine dialogue next yields
  obtain ⟨talk, slot_yields⟩ := Draw.yields_of_act yields
  obtain ⟨within, _, _, rfl⟩ := of_breedSlot slot_yields
  exact ⟨Draw.quiet_of_act yields, ⟨rfl, rfl, rfl, Population.size_set ..⟩, within, _, rfl⟩

/-- The parts of a generation before the chance to migrate, for a population of the given size. -/
def rearingParts (size : Nat) : List (Part γ μ ε) :=
  promoteBest :: fillingParts breedPart 1 (size - 1) ++ [fun engine => engine.applyStrategy.act]

/-- The parts of a generation of a population of the given size. -/
def generationParts (size : Nat) : List (Part γ μ ε) :=
  rearingParts size ++ closingParts

omit [Mutator μ] [Evaluator ε] in
theorem promoteBest_bind_congr {f g : Engine γ μ ε → Act (Engine γ μ ε)}
    (same : ∀ next, next.population.size = engine.population.size → f next = g next) :
    engine.promoteBest >>= f = engine.promoteBest >>= g := by
  rw [promoteBest, bind_assoc, bind_assoc]
  refine congrArg (_ >>= ·) (funext fun best => ?_)
  dsimp only
  split
  · exact same engine rfl
  · cases replaced : engine.population.replace? 0 best.1 with
    | none => rfl
    | some population =>
      obtain ⟨_, rfl⟩ := Population.replace?_eq_some_iff.mp replaced
      exact same _ (Population.size_set ..)

theorem step_eq_perform [Generator γ] (engine : Engine γ μ ε) :
    engine.step = perform (generationParts engine.population.size) engine := by
  rw [step, perform, generationParts, rearingParts, closingParts, List.cons_append,
    List.cons_append, List.foldlM_cons]
  refine promoteBest_bind_congr fun promoted size_eq => ?_
  rw [List.foldlM_append, List.foldlM_append, fillingParts, List.foldlM_map, breed,
    Draw.act_foldlM, size_eq, bind_assoc]
  simp only [List.foldlM_cons, List.foldlM_nil, bind_pure]
  rfl

/-- How the seeding and every generation end: the best of the population is held against the best so
far, and what is reported then is the outcome. -/
structure Notes (engine : Engine γ μ ε) (dialogue : List Surroundings.Line)
    (next : Engine γ μ ε) : Prop where
  config_eq : next.config = engine.config
  strategy_eq : next.strategy = engine.strategy
  noted : ∃ slot index, next.population.best? = some (slot, index) ∧
    next.best = (engine.noteBest slot.scored).best
  records : ∀ record reply,
    (⟨.store (.logProgress record), reply⟩ : Surroundings.Line) ∈ dialogue →
      record.bestOverall = (next.best.map Scored.fitness).getD Numeric.nan

omit [Mutator μ] [Evaluator ε] in
/-- Once the best has been noted and a report made, this is the end. -/
theorem notes_of_updateBest {noted : Engine γ μ ε} {talk report : List Surroundings.Line}
    (update_yields : engine.updateBest.Yields talk noted)
    (report_yields : noted.report.Yields report last) :
    engine.Notes (talk ++ report) last ∧ noted.population = engine.population ∧
      last.population = engine.population := by
  obtain ⟨rfl, slot, index, found, noted_eq⟩ := of_updateBest update_yields
  obtain ⟨⟨reporter, last_eq⟩, records⟩ := of_report report_yields
  have noted_population : noted.population = engine.population := by
    rw [noted_eq, population_noteBest]
  have last_population : last.population = engine.population := by
    rw [last_eq, noted_population]
  have best_eq : last.best = noted.best := by
    rw [last_eq]
  refine ⟨⟨?_, ?_, ⟨slot, index, ?_, ?_⟩, ?_⟩, noted_population, last_population⟩
  · simp only [last_eq, noted_eq, config_noteBest]
  · simp only [last_eq, noted_eq, strategy_noteBest]
  · rw [last_population, found]
  · rw [best_eq, noted_eq]
  · intro record reply line_mem
    rw [best_eq]
    exact records record reply line_mem

omit [Mutator μ] [Evaluator ε] in
/-- What happens before the end without a report on the population does not show in it. -/
theorem Notes.of_quiet {mid : Engine γ μ ε} {talk : List Surroundings.Line}
    (notes : mid.Notes dialogue last) (config_eq : mid.config = engine.config)
    (strategy_eq : mid.strategy = engine.strategy) (best_eq : mid.best = engine.best)
    (quiet : Quiet talk) : engine.Notes (talk ++ dialogue) last where
  config_eq := notes.config_eq.trans config_eq
  strategy_eq := notes.strategy_eq.trans strategy_eq
  noted := by
    obtain ⟨slot, index, found, noted_eq⟩ := notes.noted
    exact ⟨slot, index, found, noted_eq.trans (best_noteBest_congr best_eq slot.scored)⟩
  records := by
    intro record reply line_mem
    rw [List.mem_append] at line_mem
    exact notes.records record reply (line_mem.resolve_left (quiet record reply))

omit [Mutator μ] [Evaluator ε] in
/-- From the chance to migrate on, only an exchange touches the population. -/
theorem of_closing (passes : Passes closingParts engine dialogue moments last) :
    engine.Notes dialogue last ∧
      (∀ moment ∈ moments, moment.population = last.population) ∧
      (last.population = engine.population ∨ ¬ engine.config.migration.probability ≤ 0 ∧
        ∃ migrants, last.population =
          engine.population.splice engine.config.migration.splice migrants) := by
  obtain ⟨_, exchanged, _, _, migrate_yields, then_finish, rfl, rfl⟩ := passes_cons_iff.mp passes
  obtain ⟨_, finished, _, _, finish_yields, then_report, rfl, rfl⟩ :=
    passes_cons_iff.mp then_finish
  obtain ⟨report_yields, rfl⟩ := passes_single_iff.mp then_report
  obtain ⟨quiet, population, rfl, exchange⟩ := of_migrate migrate_yields
  obtain ⟨notes, finished_population, last_population⟩ :=
    notes_of_updateBest finish_yields report_yields
  refine ⟨notes.of_quiet rfl rfl rfl quiet, ?_, last_population ▸ exchange⟩
  simp only [List.mem_cons, List.not_mem_nil, or_false]
  rintro moment (rfl | rfl | rfl)
  · exact last_population.symm
  · exact finished_population.trans last_population.symm
  · rfl

/-- Up to the chance to migrate: the best slot has been promoted, all others have been filled with
children, and the strategy has done its part. -/
theorem exists_of_rearing
    (passes : Passes (rearingParts engine.population.size) engine dialogue moments last) :
    ∃ slot index promoted children bred, moments = promoted :: (children ++ [last]) ∧
      engine.population.best? = some (slot, index) ∧
      promoted = { engine with population := engine.population.set 0 slot } ∧
      Fills 1 (engine.population.size - 1) promoted children bred ∧
      bred.Reshapes last ∧ Quiet dialogue := by
  rw [rearingParts, List.cons_append] at passes
  obtain ⟨_, promoted, _, _, promote_yields, then_breed, rfl, rfl⟩ := passes_cons_iff.mp passes
  obtain ⟨_, children, bred, _, _, filling, then_shape, rfl, rfl⟩ :=
    passes_append_iff.mp then_breed
  obtain ⟨strategy_yields, rfl⟩ := passes_single_iff.mp then_shape
  obtain ⟨rfl, slot, index, found, promoted_eq⟩ := of_promoteBest promote_yields
  obtain ⟨fill_quiet, fills⟩ := fills_of_passes writes_breedPart filling
  obtain ⟨_, talk_yields⟩ := Draw.yields_of_act strategy_yields
  refine ⟨slot, index, promoted, children, bred, rfl, found, promoted_eq, fills,
    reshapes_of_applyStrategy talk_yields, ?_⟩
  rw [List.nil_append]
  exact fill_quiet.append (Draw.quiet_of_act strategy_yields)

/-- The slots of a seeded population have been filled one after another. -/
theorem of_seeding [Generator γ]
    (passes : Passes (seedingParts engine.population.size) engine dialogue moments last) :
    engine.Notes dialogue last ∧ ∃ filling filled behind, moments = filling ++ behind ∧
      Fills 0 engine.population.size engine filling filled ∧
      (∀ moment ∈ behind, moment.population = filled.population) ∧
      last.population = filled.population := by
  rw [seedingParts] at passes
  obtain ⟨_, filling, filled, _, _, seeds, then_finish, rfl, rfl⟩ := passes_append_iff.mp passes
  obtain ⟨_, finished, _, _, finish_yields, then_report, rfl, rfl⟩ :=
    passes_cons_iff.mp then_finish
  obtain ⟨report_yields, rfl⟩ := passes_single_iff.mp then_report
  obtain ⟨quiet, fills⟩ := fills_of_passes writes_seedPart seeds
  obtain ⟨notes, finished_population, last_population⟩ :=
    notes_of_updateBest finish_yields report_yields
  have filled_notes := notes.of_quiet fills.agrees.config_eq fills.agrees.strategy_eq
    fills.agrees.best_eq quiet
  refine ⟨filled_notes, filling, filled, _, rfl, fills, ?_, last_population⟩
  simp only [List.mem_cons, List.not_mem_nil, or_false]
  rintro moment (rfl | rfl)
  · exact finished_population
  · exact last_population

end Engine

end EvoSearch
