/-
# What a search does not look at

A search puts programs to its judge and takes the verdicts, and it counts individuals for its
schedule of reports; how the judge keeps its own state, and when the next report is due, is nothing
to the parts of a generation. So an engine can be recast, with another judge that gives the same
verdicts and another schedule, and every part but the report does to the recast engine what it does
to the engine itself.
-/

import EvoSearch.Engine.Run

namespace EvoSearch

/-- A loop over states that are seen through a function is the loop seen through the function. -/
theorem Script.foldlM_map {I : Interface} {α β ι : Type} {f : α → ι → Script I α}
    {g : β → ι → Script I β} {view : α → β}
    (commutes : ∀ state item, g (view state) item = view <$> f state item) (items : List ι)
    (start : α) : items.foldlM g (view start) = view <$> items.foldlM f start := by
  induction items generalizing start with
  | nil => rfl
  | cons item items ih =>
    rw [List.foldlM_cons, List.foldlM_cons, commutes, bind_map_left, map_bind]
    exact congrArg (_ >>= ·) (funext ih)

theorem Draw.act_map {α β : Type} (f : α → β) (draw : Draw α) :
    (f <$> draw).act = f <$> draw.act := by
  rw [act, map_eq_pure_bind, Script.lift_bind, map_eq_pure_bind]
  rfl

/-- Another judge with the same verdicts, and another schedule of reports. -/
structure Recasting (ε δ : Type) [Evaluator ε] [Evaluator δ] where
  judge : ε → δ
  evaluate_judge : ∀ program evaluator, Evaluator.evaluate program (judge evaluator) =
    Prod.map id judge (Evaluator.evaluate program evaluator)
  evaluateEarly_judge : ∀ program evaluator, Evaluator.evaluateEarly program (judge evaluator) =
    Prod.map id judge (Evaluator.evaluateEarly program evaluator)
  every : UInt64 → UInt64
  reporter : Reporter → Reporter

section Judging

variable {ε δ : Type} [Evaluator ε] [Evaluator δ] (recasting : Recasting ε δ) (program : Program)
  (evaluator : ε)

theorem Evaluation.full_judge : Evaluation.full program (recasting.judge evaluator) =
    Prod.map id recasting.judge (Evaluation.full program evaluator) := by
  rw [full, recasting.evaluate_judge]
  rfl

theorem Hurdle.evaluate_judge (hurdle : Hurdle) :
    hurdle.evaluate program (recasting.judge evaluator) =
      Prod.map id recasting.judge (hurdle.evaluate program evaluator) := by
  unfold evaluate
  split
  · rw [recasting.evaluateEarly_judge]
    dsimp only [Prod.map, id]
    split
    · rw [recasting.evaluate_judge]
      rfl
    · rfl
  · exact Evaluation.full_judge recasting program evaluator

theorem Strategy.evaluate_judge (strategy : Strategy) :
    strategy.evaluate program (recasting.judge evaluator) =
      Prod.map id recasting.judge (strategy.evaluate program evaluator) := by
  cases strategy with
  | hurdles hurdle => exact hurdle.evaluate_judge recasting program evaluator
  | standard => exact Evaluation.full_judge recasting program evaluator
  | qualityDiversity => exact Evaluation.full_judge recasting program evaluator
  | mapElites archive => exact Evaluation.full_judge recasting program evaluator

end Judging

namespace Engine

variable {γ μ ε δ : Type} [Evaluator ε] [Evaluator δ]

/-- The same search with another judge and another schedule. -/
def recast (recasting : Recasting ε δ) (engine : Engine γ μ ε) : Engine γ μ δ :=
  { engine with
    config := { engine.config with progressEvery := recasting.every engine.config.progressEvery }
    evaluator := recasting.judge engine.evaluator
    reporter := recasting.reporter engine.reporter }

variable {recasting : Recasting ε δ} (engine : Engine γ μ ε)

theorem recast_noteBest (candidate : Scored) :
    (engine.recast recasting).noteBest candidate =
      (engine.noteBest candidate).recast recasting := by
  have best_eq : (engine.recast recasting).best = engine.best := rfl
  rw [noteBest, noteBest, best_eq]
  cases engine.best with
  | none => rfl
  | some best =>
    dsimp only
    split <;> rfl

theorem recast_updateBest {I : Interface} :
    ((engine.recast recasting).updateBest : Script I _) =
      recast recasting <$> engine.updateBest := by
  rw [updateBest, updateBest, map_bind]
  refine congrArg (_ >>= ·) (funext fun best => ?_)
  dsimp only
  rw [recast_noteBest]
  rfl

theorem recast_promoteBest {I : Interface} :
    ((engine.recast recasting).promoteBest : Script I _) =
      recast recasting <$> engine.promoteBest := by
  rw [promoteBest, promoteBest, map_bind]
  refine congrArg (_ >>= ·) (funext fun best => ?_)
  dsimp only
  split
  · rfl
  · rw [map_bind]
    rfl

theorem recast_applyStrategy :
    (engine.recast recasting).applyStrategy = recast recasting <$> engine.applyStrategy := by
  unfold applyStrategy
  dsimp only [recast]
  split
  · rfl
  · rfl
  · rw [map_bind]
    rfl
  · rfl

theorem recast_migrate :
    (engine.recast recasting).migrate = recast recasting <$> engine.migrate := by
  rw [migrate, migrate, map_bind]
  rfl

/-- With the schedule as it is, a report goes out as it would have done. -/
theorem recast_report (same : recasting.reporter = id) :
    (engine.recast recasting).report = recast recasting <$> engine.report := by
  have reporter_eq : (engine.recast recasting).reporter = engine.reporter :=
    congrFun same engine.reporter
  have individuals_eq : (engine.recast recasting).individuals = engine.individuals := rfl
  rw [report, report, reporter_eq, individuals_eq]
  split
  · simp only [map_bind, map_pure, recast, same]
    rfl
  · rfl

variable [Generator γ] [Mutator μ]

theorem recast_seedSlot (index : Nat) :
    (engine.recast recasting).seedSlot index = recast recasting <$> engine.seedSlot index := by
  rw [seedSlot, seedSlot, map_bind]
  refine congrArg (_ >>= ·) (funext fun made => ?_)
  rw [map_bind]
  refine congrArg (_ >>= ·) (funext fun mutated => ?_)
  dsimp only [recast]
  rw [recasting.evaluate_judge]
  dsimp only [Prod.map, id]
  rw [recasting.evaluateEarly_judge, map_bind]
  rfl

omit [Generator γ] in
theorem recast_breedSlot (index : Nat) :
    (engine.recast recasting).breedSlot index = recast recasting <$> engine.breedSlot index := by
  rw [breedSlot, breedSlot, map_bind]
  refine congrArg (_ >>= ·) (funext fun parent => ?_)
  rw [map_bind]
  refine congrArg (_ >>= ·) (funext fun mutated => ?_)
  dsimp only [recast]
  rw [Strategy.evaluate_judge, map_bind]
  rfl

omit [Generator γ] in
theorem recast_breed :
    (engine.recast recasting).breed = recast recasting <$> engine.breed :=
  Script.foldlM_map (fun state index => state.recast_breedSlot index) _ engine

theorem recast_foldlM_seedSlot (indices : List Nat) :
    indices.foldlM seedSlot (engine.recast recasting) =
      recast recasting <$> indices.foldlM seedSlot engine :=
  Script.foldlM_map (fun state index => state.recast_seedSlot index) indices engine

theorem recast_seed (same : recasting.reporter = id) :
    (engine.recast recasting).seed = recast recasting <$> engine.seed := by
  have fill : (((List.range (engine.recast recasting).population.size).foldlM seedSlot
      (engine.recast recasting) : Draw _).act) = recast recasting <$>
        ((List.range engine.population.size).foldlM seedSlot engine : Draw _).act := by
    rw [← Draw.act_map, ← recast_foldlM_seedSlot]
    rfl
  rw [seed, seed, fill, bind_map_left, map_bind]
  refine congrArg (_ >>= ·) (funext fun filled => ?_)
  have finish : (updateBest { filled.recast recasting with seeded := true } : Act _) =
      recast recasting <$> updateBest { filled with seeded := true } :=
    recast_updateBest { filled with seeded := true }
  rw [map_bind, finish, bind_map_left]
  exact congrArg (_ >>= ·) (funext fun next => next.recast_report same)

omit [Generator γ] in
theorem recast_step (same : recasting.reporter = id) :
    (engine.recast recasting).step = recast recasting <$> engine.step := by
  rw [step, step, recast_promoteBest, bind_map_left, map_bind]
  refine congrArg (_ >>= ·) (funext fun promoted => ?_)
  rw [recast_breed, Draw.act_map, bind_map_left, map_bind]
  refine congrArg (_ >>= ·) (funext fun bred => ?_)
  rw [recast_applyStrategy, Draw.act_map, bind_map_left, map_bind]
  refine congrArg (_ >>= ·) (funext fun shaped => ?_)
  rw [recast_migrate, bind_map_left, map_bind]
  refine congrArg (_ >>= ·) (funext fun exchanged => ?_)
  have finish : (updateBest { exchanged.recast recasting with
      generation := exchanged.generation + 1 } : Act _) = recast recasting <$>
        updateBest { exchanged with generation := exchanged.generation + 1 } :=
    recast_updateBest { exchanged with generation := exchanged.generation + 1 }
  rw [map_bind]
  refine (congrArg (· >>= report) finish).trans ?_
  rw [bind_map_left]
  exact congrArg (_ >>= ·) (funext fun next => next.recast_report same)

end Engine

end EvoSearch
