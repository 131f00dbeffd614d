/-
# A run turn by turn

A run within a budget of train steps goes on from generation to generation until the steps are used
up, or until a generation has used none. Seen as a relation between states, which knows nothing of
how many turns are left at the most, this is all that a run without a limit of time does: the number
of turns that it is started with is never what ends it.

How long a run lasts then follows from how much its single turns use.
-/

import EvoSearch.Proofs.Course
import EvoSearch.Proofs.Lockstep

namespace EvoSearch

open Script

section Spends

variable {τ : Type}

/-- From state to state, while less than `limit` has been used. A turn that uses nothing is the last
one. Gives the number of turns. -/
inductive Spends (turn : τ → τ → Prop) (used : τ → Nat) (limit : Nat) : τ → Nat → τ → Prop
  | spent {state : τ} : limit ≤ used state → Spends turn used limit state 0 state
  | idle {state next : τ} : used state < limit → turn state next → ¬ used state < used next →
      Spends turn used limit state 1 next
  | turn {state next last : τ} {count : Nat} : used state < limit → turn state next →
      used state < used next → Spends turn used limit next count last →
      Spends turn used limit state (count + 1) last

variable {turn : τ → τ → Prop} {used : τ → Nat} {limit count : Nat} {state last : τ}

/-- What one turn keeps is kept to the end. -/
theorem Spends.keeps {holds : τ → Prop}
    (kept : ∀ state next, holds state → turn state next → holds next)
    (spends : Spends turn used limit state count last) (initially : holds state) : holds last := by
  induction spends with
  | spent => exact initially
  | idle _ turns _ => exact kept _ _ initially turns
  | turn _ turns _ _ ih => exact ih (kept _ _ initially turns)

/-- Once everything is spent, there are no turns. -/
theorem Spends.of_spent (spends : Spends turn used limit state count last)
    (enough : limit ≤ used state) : count = 0 ∧ last = state := by
  cases spends with
  | spent => exact ⟨rfl, rfl⟩
  | idle below => exact absurd enough (Nat.not_le.mpr below)
  | turn below => exact absurd enough (Nat.not_le.mpr below)

/-- If no turn uses anything, there is one turn at the most. -/
theorem Spends.count_eq_of_idle {holds : τ → Prop}
    (idles : ∀ state next, holds state → turn state next → used next = used state)
    (spends : Spends turn used limit state count last) (initially : holds state) :
    count = if used state < limit then 1 else 0 := by
  cases spends with
  | spent enough => rw [if_neg (Nat.not_lt.mpr enough)]
  | idle below => rw [if_pos below]
  | turn _ turns grows =>
    rw [idles _ _ initially turns] at grows
    exact absurd grows (Nat.lt_irrefl _)

/-- If a turn uses something, but not more than `most`, then a run uses up what it may, and
overshoots by less than one turn. -/
theorem Spends.bounds {holds : τ → Prop} {least most : Nat} (positive : 0 < least)
    (kept : ∀ state next, holds state → turn state next → holds next)
    (uses : ∀ state next, holds state → turn state next →
      used state + least ≤ used next ∧ used next ≤ used state + most)
    (spends : Spends turn used limit state count last) (initially : holds state) :
    limit ≤ used last ∧ used last ≤ used state + count * most ∧
      (used state < limit →
        used last < limit + most ∧ used state + count * least < limit + least) := by
  induction spends with
  | spent enough => exact ⟨enough, by omega, fun below => absurd enough (Nat.not_le.mpr below)⟩
  | idle _ turns idle =>
    have grows := (uses _ _ initially turns).1
    omega
  | turn below turns _ later ih =>
    obtain ⟨grows, limited⟩ := uses _ _ initially turns
    obtain ⟨enough, upper, others⟩ := ih (kept _ _ initially turns)
    rw [Nat.succ_mul, Nat.succ_mul]
    refine ⟨enough, by omega, fun _ => ?_⟩
    -- the next turn is one of a longer run, or the last one has been made
    rcases Nat.lt_or_ge (used _) limit with still_below | reached
    · have overshoot := others still_below
      omega
    · obtain ⟨rfl, rfl⟩ := later.of_spent reached
      omega

variable {further others total : Nat} {mid : τ} {holds : τ → Prop}

/-- If every turn uses something, a run uses up what it may, and takes nothing back. -/
theorem Spends.reaches (kept : ∀ state next, holds state → turn state next → holds next)
    (grows : ∀ state next, holds state → turn state next → used state < used next)
    (spends : Spends turn used limit state count last) (initially : holds state) :
    limit ≤ used last ∧ used state ≤ used last := by
  induction spends with
  | spent enough => exact ⟨enough, Nat.le_refl _⟩
  | idle _ turns idle => exact absurd (grows _ _ initially turns) idle
  | turn _ turns uses _ ih =>
    obtain ⟨enough, le⟩ := ih (kept _ _ initially turns)
    exact ⟨enough, Nat.le_trans (Nat.le_of_lt uses) le⟩

/-- A run that is taken up again, up to a higher limit, is as good as a single one. -/
theorem Spends.append (kept : ∀ state next, holds state → turn state next → holds next)
    (grows : ∀ state next, holds state → turn state next → used state < used next)
    (front : Spends turn used limit state count mid) (initially : holds state)
    (le : limit ≤ further) (back : Spends turn used further mid others last) :
    Spends turn used further state (count + others) last := by
  induction front with
  | spent => rwa [Nat.zero_add]
  | idle _ turns idle => exact absurd (grows _ _ initially turns) idle
  | turn below turns uses _ ih =>
    rw [Nat.add_right_comm]
    exact .turn (Nat.lt_of_lt_of_le below le) turns uses (ih (kept _ _ initially turns) back)

/-- A run passes through the point where a lower limit would have ended it. -/
theorem Spends.split (kept : ∀ state next, holds state → turn state next → holds next)
    (grows : ∀ state next, holds state → turn state next → used state < used next)
    (spends : Spends turn used further state total last) (initially : holds state)
    (le : limit ≤ further) : ∃ count mid others, Spends turn used limit state count mid ∧
      Spends turn used further mid others last ∧ total = count + others := by
  induction spends with
  | spent enough => exact ⟨0, _, 0, .spent (Nat.le_trans le enough), .spent enough, rfl⟩
  | idle _ turns idle => exact absurd (grows _ _ initially turns) idle
  | @turn state next last total below turns uses later ih =>
    by_cases still_below : used state < limit
    · obtain ⟨count, mid, others, front, back, rfl⟩ := ih (kept _ _ initially turns)
      exact ⟨count + 1, mid, others, .turn still_below turns uses front, back,
        Nat.add_right_comm ..⟩
    · exact ⟨0, state, total + 1, .spent (Nat.not_lt.mp still_below),
        .turn below turns uses later, (Nat.zero_add _).symm⟩

end Spends

/-- The dialogue that is still to come, as a state of the surroundings. -/
def Script.Recites {I : Interface} (q : I.Query) (answer : I.Answer q)
    (dialogue rest : List I.Line) : Prop :=
  dialogue = ⟨q, answer⟩ :: rest

theorem Script.endsIn_recites_of_yields {I : Interface} {α : Type} {script : Script I α}
    {dialogue : List I.Line} {value : α} (yields : script.Yields dialogue value) :
    script.EndsIn Recites dialogue value [] := by
  induction yields with
  | done value => exact .done value []
  | ask q next answer _ ih => exact .ask rfl ih

theorem Script.exists_yields_of_endsIn {I : Interface} {α σ : Type} {script : Script I α}
    {answers : (q : I.Query) → I.Answer q → σ → σ → Prop} {state last : σ} {value : α}
    (ends : script.EndsIn answers state value last) : ∃ dialogue, script.Yields dialogue value := by
  induction ends with
  | done value state => exact ⟨[], .done value⟩
  | ask _ _ ih =>
    obtain ⟨dialogue, yields⟩ := ih
    exact ⟨_, .ask _ _ _ yields⟩

theorem Act.endsIn_now_iff {σ : Type}
    {answers : (effect : Effect) → effect.Answer → σ → σ → Prop} {state last : σ} {time : Nat} :
    Act.now.EndsIn answers state time last ↔ answers .clock time state last := by
  constructor
  · intro ends
    obtain ⟨_, _, told, rest⟩ := exists_of_endsIn_ask ends
    cases rest
    exact told
  · intro told
    exact .ask told (.done time last)

namespace Engine

section Keeping

variable {γ μ ε : Type} {engine bred next : Engine γ μ ε}

/-- What every generation keeps: the number of slots, that the population has been seeded, and
whether there are hurdles. -/
structure Maintains (engine next : Engine γ μ ε) : Prop where
  size_eq : next.population.size = engine.population.size
  seeded_eq : next.seeded = engine.seeded
  collectsEarly_eq : next.strategy.collectsEarly = engine.strategy.collectsEarly

theorem Maintains.trans {last : Engine γ μ ε} (first : engine.Maintains next)
    (second : next.Maintains last) : engine.Maintains last where
  size_eq := second.size_eq.trans first.size_eq
  seeded_eq := second.seeded_eq.trans first.seeded_eq
  collectsEarly_eq := second.collectsEarly_eq.trans first.collectsEarly_eq

/-- The turn of a strategy is about the population, and about what it knows itself. -/
theorem of_applyStrategy {talk : List Chance.Line}
    (yields : engine.applyStrategy.Yields talk next) : ∃ population strategy earlyObserved,
      next = { engine with population, strategy, earlyObserved } := by
  rw [applyStrategy] at yields
  split at yields
  · obtain ⟨_, rfl⟩ := yields_pure_iff.mp yields
    exact ⟨_, _, _, rfl⟩
  · obtain ⟨_, rfl⟩ := yields_pure_iff.mp yields
    exact ⟨_, _, _, rfl⟩
  · obtain ⟨_, _, _, _, last, _⟩ := yields_bind_iff.mp yields
    obtain ⟨_, rfl⟩ := yields_pure_iff.mp last
    exact ⟨_, _, _, rfl⟩
  · obtain ⟨_, rfl⟩ := yields_pure_iff.mp yields
    exact ⟨_, _, _, rfl⟩

/-- In its second half a generation evaluates nothing, and is counted. -/
theorem maintains_of_conclude {dialogue : List Surroundings.Line}
    (yields : bred.conclude.Yields dialogue next) : bred.Maintains next ∧
      next.evaluator = bred.evaluator ∧ next.individuals = bred.individuals ∧
      next.generation = bred.generation + 1 := by
  obtain ⟨_, shaped, population, _, _, shaped_yields, size_eq, rfl⟩ := of_conclude yields
  have reshapes := reshapes_of_applyStrategy shaped_yields
  obtain ⟨_, _, _, rfl⟩ := of_applyStrategy shaped_yields
  exact ⟨⟨size_eq, rfl, reshapes.collectsEarly_eq⟩, rfl, rfl, rfl⟩

variable [Mutator μ] [Evaluator ε]

/-- In its first half a generation changes neither the strategy nor the number of generations. -/
theorem maintains_of_rear {dialogue : List Surroundings.Line}
    (yields : engine.rear.Yields dialogue bred) : engine.Maintains bred ∧
      bred.generation = engine.generation := by
  obtain ⟨slot, _, breed_yields⟩ := of_rear yields
  apply holds_of_foldlM
    (fun _ state => engine.Maintains state ∧ state.generation = engine.generation)
    ?_ breed_yields ⟨⟨Population.size_set .., rfl, rfl⟩, rfl⟩
  rintro index state talk next _ ⟨so_far, generation_eq⟩ slot_yields
  obtain ⟨_, _, _, rfl⟩ := of_breedSlot slot_yields
  exact ⟨⟨(Population.size_set ..).trans so_far.size_eq, so_far.seeded_eq,
    so_far.collectsEarly_eq⟩, generation_eq⟩

theorem maintains_of_step {dialogue : List Surroundings.Line}
    (yields : engine.step.Yields dialogue next) : engine.Maintains next ∧
      next.generation = engine.generation + 1 := by
  obtain ⟨_, _, _, rear_yields, conclude_yields, _⟩ := yields_step_iff.mp yields
  obtain ⟨reared, reared_generation⟩ := maintains_of_rear rear_yields
  obtain ⟨concluded, _, _, generation_eq⟩ := maintains_of_conclude conclude_yields
  exact ⟨reared.trans concluded, generation_eq.trans (congrArg (· + 1) reared_generation)⟩

end Keeping

variable {γ μ ε σ : Type} [Mutator μ] [Evaluator ε]
  {answers : (effect : Effect) → effect.Answer → σ → σ → Prop} {engine next : Engine γ μ ε}
  {state last : σ}

/-- One turn of a run: it looks at the clock, and goes through a generation. -/
def Turns (answers : (effect : Effect) → effect.Answer → σ → σ → Prop)
    (before after : Engine γ μ ε × σ) : Prop :=
  ∃ (time : Nat) (mid : σ), answers .clock time before.2 mid ∧
    before.1.step.EndsIn answers mid after.1 after.2

/-- A round of a run without a limit of time: there may be nothing left to use, and otherwise there
is a turn, which ends the run if it uses nothing. -/
theorem endsIn_round_iff {steps before start fuel completed generations : Nat} :
    (engine.continueRun ⟨steps, none⟩ before start (fuel + 1) completed).EndsIn answers state
        (generations, next) last ↔
      (¬ engine.trainSteps - before < steps ∧ generations = completed ∧ next = engine ∧
        last = state) ∨
      (engine.trainSteps - before < steps ∧ ∃ mid between, Turns answers (engine, state)
        (mid, between) ∧
          ((¬ engine.trainSteps < mid.trainSteps ∧ generations = completed + 1 ∧ next = mid ∧
            last = between) ∨
          (engine.trainSteps < mid.trainSteps ∧
            (mid.continueRun ⟨steps, none⟩ before start fuel (completed + 1)).EndsIn answers between
              (generations, next) last))) := by
  rw [continueRun]
  by_cases left : engine.trainSteps - before < steps
  · rw [if_pos left]
    constructor
    · intro ends
      obtain ⟨time, asked, asks, rest⟩ := endsIn_bind_iff.mp ends
      simp only [Option.all_none, if_true] at rest
      obtain ⟨mid, between, steps_ends, rest⟩ := endsIn_bind_iff.mp rest
      have told := Act.endsIn_now_iff.mp asks
      refine .inr ⟨left, mid, between, ⟨time, asked, told, steps_ends⟩, ?_⟩
      split at rest
      · next grows => exact .inr ⟨grows, rest⟩
      · next idle =>
        obtain ⟨same, rfl⟩ := endsIn_pure_iff.mp rest
        obtain ⟨rfl, rfl⟩ := Prod.mk.inj same
        exact .inl ⟨idle, rfl, rfl, rfl⟩
    · rintro (⟨beyond, _⟩ | ⟨_, mid, between, ⟨time, asked, told, steps_ends⟩, rest⟩)
      · exact absurd left beyond
      · refine endsIn_bind_iff.mpr ⟨time, asked, Act.endsIn_now_iff.mpr told, ?_⟩
        simp only [Option.all_none, if_true]
        refine endsIn_bind_iff.mpr ⟨mid, between, steps_ends, ?_⟩
        rcases rest with ⟨idle, rfl, rfl, rfl⟩ | ⟨grows, rest⟩
        · rw [if_neg idle]
          exact endsIn_pure_iff.mpr ⟨rfl, rfl⟩
        · rw [if_pos grows]
          exact rest
  · rw [if_neg left, endsIn_pure_iff, Prod.mk.injEq]
    simp [left, and_assoc]

/-- As long as there are as many turns left as there is to use, a run without a limit of time ends
as its turns do. -/
theorem endsIn_continueRun_iff {steps before start fuel completed generations : Nat}
    (le : before ≤ engine.trainSteps) (enough : before + steps ≤ engine.trainSteps + fuel) :
    (engine.continueRun ⟨steps, none⟩ before start fuel completed).EndsIn answers state
        (generations, next) last ↔
      ∃ count, generations = completed + count ∧
        Spends (Turns answers) (fun point => point.1.trainSteps) (before + steps) (engine, state)
          count (next, last) := by
  induction fuel generalizing engine completed state with
  | zero =>
    have spent : before + steps ≤ engine.trainSteps := enough
    rw [continueRun, endsIn_pure_iff, Prod.mk.injEq]
    constructor
    · rintro ⟨⟨rfl, rfl⟩, rfl⟩
      exact ⟨0, rfl, .spent spent⟩
    · rintro ⟨count, rfl, spends⟩
      obtain ⟨rfl, same⟩ := spends.of_spent spent
      obtain ⟨rfl, rfl⟩ := Prod.mk.inj same
      exact ⟨⟨rfl, rfl⟩, rfl⟩
  | succ fuel ih =>
    have left_iff : engine.trainSteps - before < steps ↔ engine.trainSteps < before + steps := by
      omega
    have later {mid : Engine γ μ ε} {between : σ} (grows : engine.trainSteps < mid.trainSteps) :=
      @ih mid between (completed + 1) (by omega) (by omega)
    rw [endsIn_round_iff, left_iff]
    constructor
    · rintro (⟨beyond, rfl, rfl, rfl⟩ | ⟨left, mid, between, turns, ends⟩)
      · exact ⟨0, rfl, .spent (Nat.not_lt.mp beyond)⟩
      · rcases ends with ⟨idle, rfl, rfl, rfl⟩ | ⟨grows, rest⟩
        · exact ⟨1, rfl, .idle left turns idle⟩
        · obtain ⟨count, rfl, spends⟩ := (later grows).mp rest
          exact ⟨count + 1, Nat.add_right_comm .., .turn left turns grows spends⟩
    · rintro ⟨count, rfl, spends⟩
      cases spends with
      | spent beyond => exact .inl ⟨Nat.not_lt.mpr beyond, rfl, rfl, rfl⟩
      | idle left turns idle => exact .inr ⟨left, _, _, turns, .inl ⟨idle, rfl, rfl, rfl⟩⟩
      | @turn _ mid _ count left turns grows spends =>
        refine .inr ⟨left, _, _, turns, .inr ⟨grows, (later grows).mpr ⟨count, ?_, spends⟩⟩⟩
        rw [Nat.add_right_comm, Nat.add_assoc]

/-- A run without a limit of time, turn by turn. -/
theorem endsIn_run_iff {steps generations : Nat} :
    (engine.run ⟨steps, none⟩).EndsIn answers state (generations, next) last ↔
      engine.seeded = true ∧ ∃ (time : Nat) (mid : σ), answers .clock time state mid ∧
        Spends (Turns answers) (fun point => point.1.trainSteps) (engine.trainSteps + steps)
          (engine, mid) generations (next, last) := by
  rw [run]
  by_cases seeded : engine.seeded = true
  · rw [if_pos seeded]
    constructor
    · intro ends
      obtain ⟨time, mid, asks, rest⟩ := endsIn_bind_iff.mp ends
      obtain ⟨count, rfl, spends⟩ :=
        (endsIn_continueRun_iff (Nat.le_refl _) (Nat.le_refl _)).mp rest
      rw [Nat.zero_add]
      exact ⟨seeded, time, mid, Act.endsIn_now_iff.mp asks, spends⟩
    · rintro ⟨_, time, mid, told, spends⟩
      refine endsIn_bind_iff.mpr ⟨time, mid, Act.endsIn_now_iff.mpr told, ?_⟩
      exact (endsIn_continueRun_iff (Nat.le_refl _) (Nat.le_refl _)).mpr
        ⟨generations, (Nat.zero_add _).symm, spends⟩
  · rw [if_neg seeded]
    constructor
    · rintro ⟨⟩
    · rintro ⟨holds, _⟩
      exact absurd holds seeded

end Engine

end EvoSearch
