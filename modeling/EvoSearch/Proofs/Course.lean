/-
# The course of a run

A run seeds its population and goes from generation to generation. A generation falls into two
halves: in the first one the best slot goes to the front and a child is put into every other slot,
and in the second one the strategy has its turn. What the children of a generation are worth can be
seen at the seam, where each of them still stands in its slot.
-/

import EvoSearch.Proofs.Elitism

namespace EvoSearch

open Script

/-- What each turn of a counting loop keeps, the loop keeps. -/
theorem Script.holds_of_foldlM {I : Interface} {α : Type} {f : α → Nat → Script I α}
    (holds : Nat → α → Prop) {first count : Nat}
    (turn : ∀ index state talk next, first ≤ index → holds index state →
      (f state index).Yields talk next → holds (index + 1) next)
    {start last : α} {dialogue : List I.Line}
    (yields : ((List.range' first count).foldlM f start).Yields dialogue last)
    (initially : holds first start) : holds (first + count) last := by
  induction count generalizing first start dialogue with
  | zero =>
    obtain ⟨_, rfl⟩ := yields_pure_iff.mp yields
    exact initially
  | succ count ih =>
    rw [List.range'_succ, List.foldlM_cons] at yields
    obtain ⟨_, mid, _, head, rest, _⟩ := yields_bind_iff.mp yields
    have later := ih (fun index state talk next le => turn index state talk next (by omega)) rest
      (turn first start _ mid (Nat.le_refl first) initially head)
    rwa [Nat.add_right_comm, Nat.add_assoc] at later

/-- What a function makes of a script it makes of all ends of the script. -/
theorem Script.yields_map_iff {I : Interface} {α β : Type} {f : α → β} {script : Script I α}
    {dialogue : List I.Line} {value : β} : (f <$> script).Yields dialogue value ↔
      ∃ result, script.Yields dialogue result ∧ value = f result := by
  rw [map_eq_pure_bind, yields_bind_iff]
  constructor
  · rintro ⟨first, result, rest, yields, last, rfl⟩
    obtain ⟨rfl, rfl⟩ := yields_pure_iff.mp last
    exact ⟨result, by rwa [List.append_nil], rfl⟩
  · rintro ⟨result, yields, rfl⟩
    exact ⟨dialogue, result, [], yields, .done _, (List.append_nil _).symm⟩

namespace Population

variable {population : Population} {first index : Nat} {slot : Slot}

/-- The slots from `first` on up to `stop`, which is left out. -/
def span (population : Population) (first stop : Nat) : List Slot :=
  (population.slots.toList.take stop).drop first

/-- The slots that a generation puts a child in. -/
def children (population : Population) : List Slot :=
  population.span 1 population.size

theorem span_self : population.span first first = [] := by
  simp [span]

theorem span_zero : population.span 0 population.size = population.slots.toList := by
  rw [span, size, ← Array.length_toList, List.take_length, List.drop_zero]

theorem length_children : population.children.length = population.size - 1 := by
  simp [children, span, size]

theorem span_eq_children (population : Population) :
    population.span 1 (1 + (population.size - 1)) = population.children := by
  cases size_eq : population.size with
  | zero =>
    have none : population.slots.toList = [] := by simpa [size] using size_eq
    simp [span, children, none]
  | succ others => rw [children, size_eq, Nat.add_sub_cancel, Nat.add_comm]

/-- A span is made longer by writing to the slot behind it. -/
theorem span_set (le : first ≤ index) (within : index < population.size) :
    (population.set index slot).span first (index + 1) = population.span first index ++ [slot] := by
  have inside : index < population.slots.toList.length := by simpa [size] using within
  have taken : (population.slots.toList.set index slot).take (index + 1) =
      population.slots.toList.take index ++ [slot] := by
    rw [List.take_add_one, List.take_set_of_le (Nat.le_refl index), List.getElem?_set_self inside]
    rfl
  rw [span, set, Array.toList_setIfInBounds, taken,
    List.drop_append_of_le_length (by rw [List.length_take]; omega)]
  rfl

end Population

namespace Engine

variable {γ μ ε : Type} [Generator γ] [Mutator μ] [Evaluator ε] {engine bred next : Engine γ μ ε}
  {dialogue : List Surroundings.Line}

omit [Generator γ] in
/-- The first half of a generation: the best slot moves to the front, and every other slot gets a
child. -/
def rear (engine : Engine γ μ ε) : Act (Engine γ μ ε) := do
  let engine ← engine.promoteBest
  engine.breed.act

omit [Generator γ] [Mutator μ] [Evaluator ε] in
/-- The second half of a generation. -/
def conclude (engine : Engine γ μ ε) : Act (Engine γ μ ε) := do
  let engine ← engine.applyStrategy.act
  let engine ← engine.migrate
  let engine ← { engine with generation := engine.generation + 1 }.updateBest
  engine.report

omit [Generator γ] in
theorem step_eq_rear_bind (engine : Engine γ μ ε) : engine.step = engine.rear >>= conclude := by
  rw [step, rear, bind_assoc]
  rfl

omit [Generator γ] in
/-- The two halves of a generation with this dialogue meet at `bred`, where all children stand in
their slots. -/
def HasSeam (engine bred next : Engine γ μ ε) (dialogue : List Surroundings.Line) : Prop :=
  ∃ first second, engine.rear.Yields first bred ∧ bred.conclude.Yields second next ∧
    dialogue = first ++ second

omit [Generator γ] in
/-- Every generation has a seam, and what has one is a generation. -/
theorem yields_step_iff :
    engine.step.Yields dialogue next ↔ ∃ bred, engine.HasSeam bred next dialogue := by
  rw [step_eq_rear_bind, yields_bind_iff, exists_comm]
  rfl

/-- Seed the population, and go through so many generations. -/
def course (engine : Engine γ μ ε) : (generations : Nat) → Act (Engine γ μ ε)
  | 0 => engine.seed
  | generations + 1 => engine.course generations >>= step

/-- The seeding of a search and its first generation, the halves of which are seen. -/
def opening (start : Engine γ μ ε) : Act (Engine γ μ ε × Engine γ μ ε × Engine γ μ ε) := do
  let engine ← start.seed
  let bred ← engine.rear
  let next ← bred.conclude
  pure (engine, bred, next)

theorem exists_of_opening {start : Engine γ μ ε}
    (yields : start.opening.Yields dialogue (engine, bred, next)) :
    ∃ seeding first second, start.seed.Yields seeding engine ∧ engine.rear.Yields first bred ∧
      bred.conclude.Yields second next := by
  obtain ⟨seeding, _, _, seed_yields, rest, _⟩ := yields_bind_iff.mp yields
  obtain ⟨first, _, _, rear_yields, rest, _⟩ := yields_bind_iff.mp rest
  obtain ⟨second, _, _, conclude_yields, last, _⟩ := yields_bind_iff.mp rest
  obtain ⟨_, same⟩ := yields_pure_iff.mp last
  cases same
  exact ⟨seeding, first, second, seed_yields, rear_yields, conclude_yields⟩

/-- What seeding makes of an engine, besides filling the slots. -/
theorem of_seed (yields : engine.seed.Yields dialogue next) :
    ∃ talk filled best reporter,
      ((List.range' 0 engine.population.size).foldlM seedSlot engine).Yields talk filled ∧
      next = { filled with seeded := true, best, reporter } := by
  obtain ⟨_, filled, _, fill_yields, rest, _⟩ := yields_bind_iff.mp yields
  obtain ⟨_, noted, _, finish_yields, report_yields, _⟩ := yields_bind_iff.mp rest
  obtain ⟨talk, filled_yields⟩ := Draw.yields_of_act fill_yields
  obtain ⟨_, slot, index, _, noted_eq⟩ := of_updateBest finish_yields
  obtain ⟨⟨reporter, rfl⟩, _⟩ := of_report report_yields
  rw [List.range_eq_range'] at filled_yields
  refine ⟨talk, filled, noted.best, reporter, filled_yields, ?_⟩
  rw [noted_eq, noteBest_eq]

omit [Generator γ] in
/-- The first half of a generation breeds from a population whose best slot is in front. -/
theorem of_rear (yields : engine.rear.Yields dialogue bred) :
    ∃ slot talk, (breed { engine with population := engine.population.set 0 slot }).Yields talk
      bred := by
  obtain ⟨_, promoted, _, promote_yields, breed_yields, _⟩ := yields_bind_iff.mp yields
  obtain ⟨_, slot, index, _, rfl⟩ := of_promoteBest promote_yields
  obtain ⟨talk, talk_yields⟩ := Draw.yields_of_act breed_yields
  exact ⟨slot, talk, talk_yields⟩

/-- The strategy has no part in the seeding. -/
theorem strategy_of_seed (yields : engine.seed.Yields dialogue next) :
    next.strategy = engine.strategy := by
  obtain ⟨_, filled, _, _, fill_yields, rfl⟩ := of_seed yields
  apply holds_of_foldlM (fun _ state => state.strategy = engine.strategy) ?_ fill_yields rfl
  intro index state talk next _ same slot_yields
  obtain ⟨_, _, _, _, rfl⟩ := of_seedSlot slot_yields
  exact same

omit [Generator γ] in
/-- The strategy does not change while there are children being bred. -/
theorem strategy_of_rear (yields : engine.rear.Yields dialogue bred) :
    bred.strategy = engine.strategy := by
  obtain ⟨_, _, breed_yields⟩ := of_rear yields
  apply holds_of_foldlM (fun _ state => state.strategy = engine.strategy) ?_ breed_yields rfl
  intro index state talk next _ same slot_yields
  obtain ⟨_, _, _, rfl⟩ := of_breedSlot slot_yields
  exact same

omit [Generator γ] [Mutator μ] [Evaluator ε] in
/-- Once the strategy has had its turn, only the population changes, and what is noted of it. -/
theorem of_conclude (yields : bred.conclude.Yields dialogue next) :
    ∃ talk shaped population best reporter, bred.applyStrategy.Yields talk shaped ∧
      population.size = bred.population.size ∧
      next = { shaped with
        population, best, reporter, generation := shaped.generation + 1 } := by
  obtain ⟨_, shaped, _, strategy_yields, rest, _⟩ := yields_bind_iff.mp yields
  obtain ⟨_, exchanged, _, migrate_yields, rest, _⟩ := yields_bind_iff.mp rest
  obtain ⟨_, noted, _, finish_yields, report_yields, _⟩ := yields_bind_iff.mp rest
  obtain ⟨talk, shaped_yields⟩ := Draw.yields_of_act strategy_yields
  obtain ⟨_, population, rfl, exchange⟩ := of_migrate migrate_yields
  obtain ⟨_, slot, index, _, noted_eq⟩ := of_updateBest finish_yields
  obtain ⟨⟨reporter, rfl⟩, _⟩ := of_report report_yields
  have shaped_size := (reshapes_of_applyStrategy shaped_yields).size_eq
  refine ⟨talk, shaped, population, noted.best, reporter, shaped_yields, ?_, ?_⟩
  · rcases exchange with rfl | ⟨_, migrants, rfl⟩
    · exact shaped_size
    · exact Population.size_splice.trans shaped_size
  · rw [noted_eq, noteBest_eq]

end Engine

end EvoSearch
