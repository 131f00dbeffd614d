/-
# What selection picks

The search for the best member and a tournament pick the first of those that nothing else beats, the
one among all slots and the other among those that have been drawn. A tournament is fixed by the
numbers that chance brings: one for each contestant, and nothing else is asked.

A fitness that is not finite has its place in the order like any other. NaN and minus infinity lie
below all finite fitnesses and never win against one. Infinity lies above them, and wins.
-/

import Mathlib.Data.List.Forall2
import EvoSearch.Proofs.Dialogue
import EvoSearch.Proofs.Peak

namespace EvoSearch

open Numeric Script

/-- A script over and over again holds the dialogues of its single turns, one after another. -/
theorem Script.yields_replicate_iff {I : Interface} {α : Type} {body : Script I α} {count : Nat}
    {dialogue : List I.Line} {results : List α} :
    (replicate count body).Yields dialogue results ↔
      ∃ talks, List.Forall₂ body.Yields talks results ∧ talks.length = count ∧
        dialogue = talks.flatten := by
  induction count generalizing dialogue results with
  | zero =>
    rw [replicate_zero, yields_pure_iff]
    constructor
    · rintro ⟨rfl, rfl⟩
      exact ⟨[], .nil, rfl, rfl⟩
    · rintro ⟨talks, turns, none, rfl⟩
      obtain rfl := List.length_eq_zero_iff.mp none
      cases turns
      exact ⟨rfl, rfl⟩
  | succ count ih =>
    rw [replicate_succ, yields_bind_iff]
    constructor
    · rintro ⟨talk, head, _, head_yields, rest, rfl⟩
      obtain ⟨_, tail, _, tail_yields, last, rfl⟩ := yields_bind_iff.mp rest
      obtain ⟨rfl, rfl⟩ := yields_pure_iff.mp last
      obtain ⟨talks, turns, length_eq, rfl⟩ := ih.mp tail_yields
      exact ⟨talk :: talks, .cons head_yields turns, congrArg (· + 1) length_eq,
        by rw [List.append_nil, List.flatten_cons]⟩
    · rintro ⟨_, turns, length_eq, rfl⟩
      cases turns with
      | nil => cases length_eq
      | @cons talk head talks tail head_yields turns =>
        refine ⟨talk, head, _, head_yields, ?_, List.flatten_cons⟩
        exact yields_bind_iff.mpr ⟨_, tail, [],
          ih.mpr ⟨talks, turns, Nat.succ.inj length_eq, rfl⟩, .done _, (List.append_nil _).symm⟩

section Scan

variable {α : Type} (score : α → Float) {leader : α} {row : List α}

/-- What a scan keeps beats everything in front of it. -/
theorem exists_front_of_champion (leader : α) (row : List α) : ∃ front behind,
    leader :: row = front ++ champion score leader row :: behind ∧
      ∀ x ∈ front, beats (score (champion score leader row)) (score x) = true := by
  simp only [beats_iff]
  induction row generalizing leader with
  | nil => exact ⟨[], [], rfl, by rintro _ ⟨⟩⟩
  | cons challenger row ih =>
    rw [champion]
    by_cases wins : beats (score challenger) (score leader) = true
    · rw [if_pos wins]
      obtain ⟨front, behind, split, beaten⟩ := ih challenger
      refine ⟨leader :: front, behind, congrArg (leader :: ·) split, ?_⟩
      rintro x (_ | ⟨_, x_mem⟩)
      · exact Int.lt_of_lt_of_le (beats_iff.mp wins)
          (height_le_champion score challenger row challenger List.mem_cons_self)
      · exact beaten x x_mem
    · rw [if_neg wins]
      have below := not_beats_iff.mp (Bool.not_eq_true _ ▸ wins)
      obtain ⟨front, behind, split, beaten⟩ := ih leader
      cases front with
      | nil =>
        obtain ⟨same, _⟩ := List.cons.inj split
        exact ⟨[], challenger :: row, congrArg (· :: challenger :: row) same, by rintro _ ⟨⟩⟩
      | cons head front =>
        obtain ⟨rfl, rest⟩ := List.cons.inj split
        have leader_lt := beaten leader List.mem_cons_self
        refine ⟨leader :: challenger :: front, behind,
          congrArg (leader :: challenger :: ·) rest, ?_⟩
        rintro x (_ | ⟨_, _ | ⟨_, x_mem⟩⟩)
        · exact leader_lt
        · exact Int.lt_of_le_of_lt below leader_lt
        · exact beaten x (List.mem_cons_of_mem leader x_mem)

theorem beq_infinity_iff {x : Float} : (x == infinity) = true ↔ height x = stepsToInfinity := by
  rw [beq_iff, height_infinity]
  constructor
  · exact fun ⟨_, _, same⟩ => same
  · intro same
    refine ⟨?_, by decide, same⟩
    rw [← Bool.not_eq_true, isNaN_iff, same]
    decide

/-- Where there is something finite, a scan keeps something finite, unless there is an infinity; and
then it keeps an infinity. -/
theorem champion_of_finite (finite : ∃ x ∈ leader :: row, (score x).isFinite = true) :
    ((score (champion score leader row)).isFinite = true ∨
        (score (champion score leader row) == infinity) = true) ∧
      ((score (champion score leader row)).isFinite = true ↔
        ∀ x ∈ leader :: row, (score x == infinity) = false) := by
  have le := height_le_infinity (score (champion score leader row))
  have above : -stepsToInfinity < height (score (champion score leader row)) := by
    obtain ⟨x, x_mem, x_finite⟩ := finite
    exact Int.lt_of_lt_of_le (isFinite_iff.mp x_finite).1
      (height_le_champion score leader row x x_mem)
  rw [isFinite_iff, beq_infinity_iff]
  refine ⟨by omega, ?_⟩
  constructor
  · rintro ⟨_, below⟩ x x_mem
    rw [← Bool.not_eq_true, beq_infinity_iff]
    have x_le := height_le_champion score leader row x x_mem
    omega
  · intro none
    have champion_ne := none _ (champion_mem score leader row)
    rw [← Bool.not_eq_true, beq_infinity_iff] at champion_ne
    omega

end Scan

namespace Population

variable {population : Population}

/-- A slot is the first of the best: no slot beats it, and it beats all slots in front of it. -/
structure IsFirstBest (population : Population) (slot : Slot) (index : Nat) : Prop where
  found : population.slot? index = some slot
  unbeaten : ∀ other, population.Holds other → beats other.fitness slot.fitness = false
  first : ∀ place other, place < index → population.slot? place = some other →
    beats slot.fitness other.fitness = true

theorem isFirstBest_of_best? {slot : Slot} {index : Nat}
    (best : population.best? = some (slot, index)) : population.IsFirstBest slot index := by
  refine ⟨slot?_of_best? best, ?_, ?_⟩
  · intro other other_holds
    exact not_beats_iff.mpr ((peaks_of_best? best).bound other other_holds)
  · intro place other place_lt other_at
    have other_mem : population.slots.toList.zipIdx[place]? = some (other, place) := by
      rw [slot?, ← Array.getElem?_toList] at other_at
      rw [List.getElem?_zipIdx, other_at, Nat.zero_add]
      rfl
    rw [best?] at best
    split at best
    · cases best
    · next leader row entries =>
      obtain ⟨front, behind, split, beaten⟩ :=
        exists_front_of_champion (fun entry : Slot × Nat => entry.1.fitness) leader row
      rw [Option.some.inj best] at split beaten
      -- the index tells how many entries there are in front
      have index_eq : front.length = index := by
        have here : population.slots.toList.zipIdx[front.length]? = some (slot, index) := by
          rw [entries, split, List.getElem?_append_right (Nat.le_refl _), Nat.sub_self]
          rfl
        obtain ⟨_, _, same⟩ := Option.map_eq_some_iff.mp (List.getElem?_zipIdx ▸ here)
        exact (Nat.zero_add _).symm.trans (Prod.mk.inj same).2
      rw [entries, split, List.getElem?_append_left (index_eq ▸ place_lt)] at other_mem
      exact beaten (other, place) (List.mem_of_getElem? other_mem)

/-- The line of a dialogue in which a slot is drawn. -/
def drawLine (population : Population) (draw : UInt64) : Chance.Line :=
  ⟨.upTo (UInt64.ofNat (population.size - 1)), draw⟩

/-- The slots that some draws bring, in their order. -/
def Draws (population : Population) (draws : List UInt64) (drawn : List (Slot × Nat)) : Prop :=
  List.Forall₂ (fun draw entry => entry.2 = draw.toNat ∧ population.slot? entry.2 = some entry.1)
    draws drawn

/-- The same draws bring the same slots. -/
theorem Draws.unique {draws : List UInt64} {drawn others : List (Slot × Nat)}
    (first : population.Draws draws drawn) (second : population.Draws draws others) :
    drawn = others := by
  refine Relator.RightUnique.forall₂ ?_ first second
  rintro draw ⟨slot, index⟩ ⟨other, place⟩ ⟨rfl, found⟩ ⟨rfl, other_found⟩
  obtain rfl := Option.some.inj (found.symm.trans other_found)
  rfl

theorem Draws.holds {draws : List UInt64} {drawn : List (Slot × Nat)}
    (brought : population.Draws draws drawn) (entry : Slot × Nat) (entry_mem : entry ∈ drawn) :
    population.Holds entry.1 := by
  induction brought with
  | nil => cases entry_mem
  | cons head _ ih =>
    rcases List.mem_cons.mp entry_mem with rfl | behind
    · exact ⟨entry.2, head.2⟩
    · exact ih behind

theorem drawLine_injective : Function.Injective population.drawLine :=
  fun _ _ same => eq_of_heq (Sigma.mk.inj same).2

theorem yields_drawSlot_iff {dialogue : List Chance.Line} {entry : Slot × Nat} :
    population.drawSlot.Yields dialogue entry ↔ ∃ draw, dialogue = [population.drawLine draw] ∧
      entry.2 = draw.toNat ∧ population.slot? entry.2 = some entry.1 := by
  rw [drawSlot, yields_bind_iff]
  constructor
  · rintro ⟨_, index, _, index_yields, rest, rfl⟩
    rw [Draw.index] at index_yields
    split at index_yields
    · exact (not_yields_fault index_yields).elim
    · obtain ⟨draw, _, rfl, last⟩ := yields_ask_iff.mp index_yields
      obtain ⟨rfl, rfl⟩ := yields_pure_iff.mp last
      obtain ⟨_, slot, _, slot_yields, last, rfl⟩ := yields_bind_iff.mp rest
      obtain ⟨rfl, found⟩ := yields_ofOption_iff.mp slot_yields
      obtain ⟨rfl, rfl⟩ := yields_pure_iff.mp last
      exact ⟨draw, rfl, rfl, found⟩
  · rintro ⟨draw, rfl, index_eq, found⟩
    have occupied : population.size ≠ 0 :=
      Nat.ne_zero_of_lt (Array.getElem?_eq_some_iff.mp found).1
    refine ⟨[population.drawLine draw], draw.toNat, [], ?_, ?_, rfl⟩
    · rw [Draw.index, if_neg occupied]
      exact yields_ask_iff.mpr ⟨draw, [], rfl, .done _⟩
    · rw [← index_eq, found]
      exact .done _

theorem yields_tournament_iff {contestants : Nat} {score : TournamentScore}
    {dialogue : List Chance.Line} {winner : Slot × Nat} :
    (population.tournament contestants score).Yields dialogue winner ↔
      ∃ draws first row, draws.length = contestants ∧ dialogue = draws.map population.drawLine ∧
        population.Draws draws (first :: row) ∧
        winner = champion (fun entry => score.of entry.1) first row := by
  have turns_iff {talks : List (List Chance.Line)} {drawn : List (Slot × Nat)} :
      List.Forall₂ population.drawSlot.Yields talks drawn ↔
        ∃ draws, talks = draws.map (fun draw => [population.drawLine draw]) ∧
          population.Draws draws drawn := by
    induction drawn generalizing talks with
    | nil => simp [Draws]
    | cons entry drawn ih =>
      constructor
      · rintro (_ | ⟨head, tail⟩)
        obtain ⟨draw, rfl, brought⟩ := yields_drawSlot_iff.mp head
        obtain ⟨draws, rfl, others⟩ := ih.mp tail
        exact ⟨draw :: draws, rfl, .cons brought others⟩
      · rintro ⟨_, rfl, _ | ⟨brought, others⟩⟩
        exact .cons (yields_drawSlot_iff.mpr ⟨_, rfl, brought⟩) (ih.mpr ⟨_, rfl, others⟩)
  have flatten_eq (draws : List UInt64) :
      (draws.map fun draw => [population.drawLine draw]).flatten =
        draws.map population.drawLine := (List.map_eq_flatMap ..).symm
  rw [tournament, yields_bind_iff]
  constructor
  · rintro ⟨_, drawn, _, drawn_yields, last, rfl⟩
    obtain ⟨talks, turns, rfl, rfl⟩ := yields_replicate_iff.mp drawn_yields
    obtain ⟨draws, rfl, brought⟩ := turns_iff.mp turns
    cases drawn with
    | nil => exact (not_yields_fault last).elim
    | cons first row =>
      obtain ⟨rfl, rfl⟩ := yields_pure_iff.mp last
      exact ⟨draws, first, row, (List.length_map _).symm, by rw [List.append_nil, flatten_eq],
        brought, rfl⟩
  · rintro ⟨draws, first, row, rfl, rfl, brought, rfl⟩
    refine ⟨draws.map population.drawLine, first :: row, [], ?_, .done _,
      (List.append_nil _).symm⟩
    exact yields_replicate_iff.mpr ⟨_, turns_iff.mpr ⟨draws, rfl, brought⟩, List.length_map _,
      (flatten_eq draws).symm⟩

/-- What a tournament ends with on some draws, which bring at least one slot. -/
theorem yields_tournament_of_draws_iff {score : TournamentScore} {draws : List UInt64}
    {first winner : Slot × Nat} {row : List (Slot × Nat)}
    (brought : population.Draws draws (first :: row)) :
    (population.tournament draws.length score).Yields (draws.map population.drawLine) winner ↔
      winner = champion (fun entry => score.of entry.1) first row := by
  rw [yields_tournament_iff]
  constructor
  · rintro ⟨others, leader, challengers, _, same, others_bring, rfl⟩
    obtain rfl := List.map_injective_iff.mpr drawLine_injective same
    obtain ⟨rfl, rfl⟩ := List.cons.inj (brought.unique others_bring)
    rfl
  · rintro rfl
    exact ⟨draws, first, row, rfl, rfl, brought, rfl⟩

/-- The best of a population with a finite fitness has a finite fitness or an infinite one that is
positive, and a finite one if and only if there is no such infinity in the population. The same goes
for the scores of a tournament, whatever has been drawn. -/
theorem winners_isFinite_iff (population : Population) :
    ((∃ slot, population.Holds slot ∧ slot.fitness.isFinite = true) →
      ∃ slot index, population.best? = some (slot, index) ∧
        (slot.fitness.isFinite = true ∨ (slot.fitness == infinity) = true) ∧
        (slot.fitness.isFinite = true ↔
          ∀ other, population.Holds other → (other.fitness == infinity) = false)) ∧
    ∀ (score : TournamentScore) (draws : List UInt64) (drawn : List (Slot × Nat)),
      population.Draws draws drawn → (∃ entry ∈ drawn, (score.of entry.1).isFinite = true) →
      ∃ winner,
        (∀ outcome, (population.tournament draws.length score).Yields
          (draws.map population.drawLine) outcome ↔ outcome = winner) ∧
        ((score.of winner.1).isFinite = true ∨ (score.of winner.1 == infinity) = true) ∧
        ((score.of winner.1).isFinite = true ↔
          ∀ entry ∈ drawn, (score.of entry.1 == infinity) = false) := by
  constructor
  · rintro ⟨finite, finite_holds, isFinite⟩
    rw [best?]
    obtain ⟨place, finite_mem⟩ := holds_iff_mem_zipIdx.mp finite_holds
    simp only [holds_iff_mem_zipIdx]
    cases entries : population.slots.toList.zipIdx with
    | nil =>
      rw [entries] at finite_mem
      cases finite_mem
    | cons first row =>
      rw [entries] at finite_mem
      obtain ⟨kind, finite_iff⟩ := champion_of_finite (fun entry : Slot × Nat => entry.1.fitness)
        ⟨(finite, place), finite_mem, isFinite⟩
      generalize leads : champion (fun entry : Slot × Nat => entry.1.fitness) first row = winner
        at kind finite_iff
      refine ⟨winner.1, winner.2, congrArg some leads, kind, finite_iff.trans ?_⟩
      constructor
      · rintro none other ⟨index, mem⟩
        exact none (other, index) mem
      · intro none entry mem
        exact none entry.1 ⟨entry.2, mem⟩
  · intro score draws drawn brought finite
    cases drawn with
    | nil =>
      obtain ⟨_, mem, _⟩ := finite
      cases mem
    | cons first row =>
      obtain ⟨kind, finite_iff⟩ :=
        champion_of_finite (fun entry : Slot × Nat => score.of entry.1) finite
      exact ⟨_, fun outcome => yields_tournament_of_draws_iff brought, kind, finite_iff⟩

/-- A population of given fitnesses, all of the empty program. -/
def ofFitnesses (fitnesses : List Float) : Population where
  slots := (fitnesses.map fun fitness => Slot.fresh { program := .empty, fitness } none).toArray

theorem fitness_mem_of_holds {fitnesses : List Float} {slot : Slot}
    (holds : (ofFitnesses fitnesses).Holds slot) : slot.fitness ∈ fitnesses := by
  obtain ⟨index, found⟩ := holds
  obtain ⟨fitness, fitness_mem, rfl⟩ :=
    List.mem_map.mp (List.mem_toArray.mp (Array.mem_of_getElem? found))
  exact fitness_mem

/-- One is finite, and loses to infinity: in the population, and in a tournament that has drawn
both. -/
theorem exists_infinite_winner : ∃ population : Population,
    (∃ slot, population.Holds slot ∧ slot.fitness.isFinite = true) ∧
    (∃ slot index, population.best? = some (slot, index) ∧ slot.fitness.isFinite = false) ∧
    ∃ draws drawn winner, population.Draws draws drawn ∧
      (∃ entry ∈ drawn, (TournamentScore.fitness.of entry.1).isFinite = true) ∧
      (population.tournament draws.length .fitness).Yields (draws.map population.drawLine) winner ∧
      (TournamentScore.fitness.of winner.1).isFinite = false := by
  have one_finite : (1 : Float).isFinite = true := by decide +kernel
  have brought : (ofFitnesses [1, infinity]).Draws [0, 1]
      [(.fresh { program := .empty, fitness := 1 } none, 0),
        (.fresh { program := .empty, fitness := infinity } none, 1)] :=
    .cons ⟨rfl, rfl⟩ (.cons ⟨rfl, rfl⟩ .nil)
  have best : ((ofFitnesses [1, infinity]).best?.any fun entry => !entry.1.fitness.isFinite) =
      true := by
    decide +kernel
  obtain ⟨⟨slot, index⟩, found, infinite⟩ := (Option.any_eq_true _ _).mp best
  refine ⟨ofFitnesses [1, infinity], ⟨_, ⟨0, rfl⟩, one_finite⟩, ⟨slot, index, found, ?_⟩,
    _, _, _, brought, ⟨_, List.mem_cons_self, one_finite⟩,
    (yields_tournament_of_draws_iff brought).mpr rfl, ?_⟩
  · simpa using infinite
  · decide +kernel

/-- NaN and minus infinity lose to one. -/
theorem winners_isFinite_iff_of_triple : ∃ slot index winner,
    (ofFitnesses [nan, -infinity, 1]).best? = some (slot, index) ∧ slot.fitness.isFinite = true ∧
      ((ofFitnesses [nan, -infinity, 1]).tournament 3 .fitness).Yields
        ([0, 2, 1].map (ofFitnesses [nan, -infinity, 1]).drawLine) winner ∧
      winner.1.fitness.isFinite = true := by
  have one_finite : (1 : Float).isFinite = true := by decide +kernel
  have below (fitness : Float) (mem : fitness ∈ [nan, -infinity, 1]) :
      (fitness == infinity) = false := by
    simp only [List.mem_cons, List.not_mem_nil, or_false] at mem
    rcases mem with rfl | rfl | rfl <;> decide +kernel
  let last : Slot := .fresh { program := .empty, fitness := 1 } none
  have brought : (ofFitnesses [nan, -infinity, 1]).Draws [0, 2, 1]
      [(.fresh { program := .empty, fitness := nan } none, 0), (last, 2),
        (.fresh { program := .empty, fitness := -infinity } none, 1)] :=
    .cons ⟨rfl, rfl⟩ (.cons ⟨rfl, rfl⟩ (.cons ⟨rfl, rfl⟩ .nil))
  obtain ⟨of_best, of_tournament⟩ := winners_isFinite_iff (ofFitnesses [nan, -infinity, 1])
  obtain ⟨slot, index, found, _, finite_iff⟩ := of_best ⟨last, ⟨2, rfl⟩, one_finite⟩
  obtain ⟨winner, outcome_iff, _, winner_iff⟩ :=
    of_tournament .fitness [0, 2, 1] _ brought ⟨(last, 2), by simp, one_finite⟩
  refine ⟨slot, index, winner, found, finite_iff.mpr ?_, (outcome_iff winner).mpr rfl,
    winner_iff.mpr ?_⟩
  · intro other holds
    exact below other.fitness (fitness_mem_of_holds holds)
  · intro entry entry_mem
    exact below entry.1.fitness (fitness_mem_of_holds (brought.holds entry entry_mem))

end Population

end EvoSearch
