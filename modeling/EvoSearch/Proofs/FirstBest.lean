/-
# The first of the best

The search for the best member and a tournament go by the same scan, and both keep the first one of
those that nothing beats: the one in the row of all slots, the other in the row of those that have
been drawn. NaN beats nothing, so where there is nothing else, it is the very first.

A tournament takes from a stream what as many plain draws of an index take, and ends as they do.
-/

import EvoSearch.Proofs.Drawing
import EvoSearch.Proofs.Faultless
import EvoSearch.Proofs.Pairing
import EvoSearch.Proofs.Selection

namespace EvoSearch

open Numeric Script EvoSearch.Random

theorem beats_eq_false_of_isNaN {x y : Float} (nan : x.isNaN = true) : beats x y = false := by
  rw [not_beats_iff, height_of_isNaN nan]
  exact height_nan_le y

open Float.Model in
theorem isNaN_add_of_isNaN {x : Float} (nan : x.isNaN = true) (y : Float) :
    (x + y).isNaN = true := by
  change x.toModel.unpack.isNaN = true at nan
  change (pack (.add .binary64 x.toModel.unpack y.toModel.unpack)).unpack.isNaN = true
  have sum : UnpackedFloat.add Format.binary64 x.toModel.unpack y.toModel.unpack =
      .notANumber := by
    revert nan
    cases x.toModel.unpack <;> intro nan
    case notANumber => cases y.toModel.unpack <;> rfl
    all_goals cases nan
  rw [sum]
  rfl

theorem TournamentScore.isNaN_of (score : TournamentScore) {slot : Slot}
    (nan : slot.fitness.isNaN = true) : (score.of slot).isNaN = true := by
  cases score with
  | fitness => exact nan
  | fitnessPlusDiversity => exact isNaN_add_of_isNaN nan slot.diversity

namespace Population

variable {population : Population}

namespace IsFirstBest

variable {slot other : Slot} {index place : Nat}

/-- Of two first ones, neither is in front of the other. -/
theorem le (first : population.IsFirstBest slot index)
    (second : population.IsFirstBest other place) : index ≤ place := by
  by_contra before
  have wins := first.first place other (Nat.not_le.mp before) second.found
  have loses := second.unbeaten slot ⟨index, first.found⟩
  rw [wins] at loses
  cases loses

theorem unique (first : population.IsFirstBest slot index)
    (second : population.IsFirstBest other place) : other = slot ∧ place = index := by
  obtain rfl := Nat.le_antisymm (first.le second) (second.le first)
  exact ⟨Option.some.inj (second.found.symm.trans first.found), rfl⟩

theorem index_eq_zero (first : population.IsFirstBest slot index)
    (nans : ∀ other, population.Holds other → other.fitness.isNaN = true) : index = 0 := by
  by_contra later
  have within := (Array.getElem?_eq_some_iff.mp first.found).1
  have leads := first.first 0 _ (Nat.pos_of_ne_zero later)
    (Array.getElem?_eq_getElem (Nat.zero_lt_of_lt within))
  rw [beats_eq_false_of_isNaN (nans slot ⟨index, first.found⟩)] at leads
  cases leads

end IsFirstBest

theorem best?_eq_some_iff {slot : Slot} {index : Nat} :
    population.best? = some (slot, index) ↔ population.IsFirstBest slot index := by
  constructor
  · exact isFirstBest_of_best?
  · intro first
    obtain ⟨within, _⟩ := Array.getElem?_eq_some_iff.mp first.found
    obtain ⟨other, place, found⟩ := exists_best? (Nat.zero_lt_of_lt within)
    obtain ⟨rfl, rfl⟩ := first.unique (isFirstBest_of_best? found)
    exact found

/-- Of the slots that some draws bring, the one at a place in their order is the first of the best:
no slot drawn has a score that beats its own, and its own beats those of all slots drawn earlier. -/
structure Wins (population : Population) (score : TournamentScore) (draws : List Nat)
    (winner : Slot × Nat) (place : Nat) : Prop where
  drawn : draws[place]? = some winner.2
  found : population.slot? winner.2 = some winner.1
  unbeaten : ∀ draw ∈ draws, ∀ slot, population.slot? draw = some slot →
    beats (score.of slot) (score.of winner.1) = false
  first : ∀ earlier draw slot, earlier < place → draws[earlier]? = some draw →
    population.slot? draw = some slot → beats (score.of winner.1) (score.of slot) = true

theorem Wins.place_eq_zero {score : TournamentScore} {draws : List Nat} {winner : Slot × Nat}
    {place : Nat} (wins : population.Wins score draws winner place)
    (inside : ∀ draw ∈ draws, draw < population.size)
    (nans : ∀ draw ∈ draws, ∀ slot, population.slot? draw = some slot →
      (score.of slot).isNaN = true) : place = 0 := by
  by_contra later
  obtain ⟨place_lt, _⟩ := List.getElem?_eq_some_iff.mp wins.drawn
  have opens := List.getElem_mem (Nat.zero_lt_of_lt place_lt)
  have leads := wins.first 0 _ _ (Nat.pos_of_ne_zero later)
    (List.getElem?_eq_getElem (Nat.zero_lt_of_lt place_lt))
    (Array.getElem?_eq_getElem (inside _ opens))
  rw [beats_eq_false_of_isNaN
    (nans _ (List.mem_of_getElem? wins.drawn) _ wins.found)] at leads
  cases leads

/-- An entry is the slot at an index that has been drawn. -/
def IsDrawn (population : Population) (entry : Slot × Nat) (draw : Nat) : Prop :=
  entry.2 = draw ∧ population.slot? draw = some entry.1

/-- What the scan of the slots drawn keeps is the first of the best among them. -/
theorem exists_wins_of_drawn {score : TournamentScore} {first : Slot × Nat}
    {row : List (Slot × Nat)} {draws : List Nat}
    (drawn : List.Forall₂ population.IsDrawn (first :: row) draws) :
    ∃ place, population.Wins score draws
      (champion (fun entry => score.of entry.1) first row) place := by
  obtain ⟨front, behind, split, beaten⟩ :=
    exists_front_of_champion (fun entry : Slot × Nat => score.of entry.1) first row
  have highest := height_le_champion (fun entry : Slot × Nat => score.of entry.1) first row
  generalize champion (fun entry : Slot × Nat => score.of entry.1) first row = winner
    at split beaten highest
  -- the entry behind a draw is the one at the same place
  have entry_at {place draw : Nat} (found : draws[place]? = some draw) :
      ∃ entry, (first :: row)[place]? = some entry ∧ population.IsDrawn entry draw := by
    have paired := forall₂_getElem? drawn place
    rw [found] at paired
    cases entry_at : (first :: row)[place]? with
    | none =>
      rw [entry_at] at paired
      cases paired
    | some entry =>
      rw [entry_at] at paired
      cases paired with
      | some is_drawn => exact ⟨entry, rfl, is_drawn⟩
  have place_lt : front.length < draws.length := by
    rw [← drawn.length_eq, split, List.length_append]
    exact Nat.lt_add_of_pos_right (Nat.succ_pos _)
  have winner_at : (first :: row)[front.length]? = some winner := by
    rw [split, List.getElem?_append_right (Nat.le_refl _), Nat.sub_self]
    rfl
  obtain ⟨entry, entry_found, same, found⟩ := entry_at (List.getElem?_eq_getElem place_lt)
  obtain rfl := Option.some.inj (winner_at.symm.trans entry_found)
  refine ⟨front.length, ?_, same ▸ found, ?_, ?_⟩
  · rw [List.getElem?_eq_getElem place_lt, same]
  · intro draw draw_mem slot slot_found
    obtain ⟨place, draw_at⟩ := List.mem_iff_getElem?.mp draw_mem
    obtain ⟨entry, entry_found, _, slot_at⟩ := entry_at draw_at
    obtain rfl := Option.some.inj (slot_at.symm.trans slot_found)
    exact not_beats_iff.mpr (highest entry (List.mem_of_getElem? entry_found))
  · intro earlier draw slot before draw_at slot_found
    obtain ⟨entry, entry_found, _, slot_at⟩ := entry_at draw_at
    obtain rfl := Option.some.inj (slot_at.symm.trans slot_found)
    rw [split, List.getElem?_append_left before] at entry_found
    exact beaten entry (List.mem_of_getElem? entry_found)

section Stream

variable {ρ : Type} [WordStream ρ]

/-- Drawing a slot takes what drawing an index takes. -/
theorem runsAlike_drawSlot (occupied : 0 < population.size) (patience : Nat) :
    RunsAlike (σ := ρ) (Choice.serve patience)
      population.IsDrawn population.drawSlot (Draw.index population.size) := by
  intro stream
  rw [drawSlot, run_bind]
  cases run : Script.run (Choice.serve patience) (Draw.index population.size) stream with
  | error reason => exact .fault reason
  | ok outcome =>
    obtain ⟨index, after⟩ := outcome
    have inside : index < population.size := Draw.of_run (Draw.ensures_index occupied) run
    dsimp only
    have found : population.slot? index = some population.slots[index] :=
      Array.getElem?_eq_getElem inside
    rw [found]
    exact .value ⟨rfl, found⟩

/-- A tournament takes what as many draws of an index take, and the first of the best wins. -/
theorem sameEnd_tournament {contestants : Nat} (occupied : 0 < population.size)
    (positive : 0 < contestants) (score : TournamentScore) (patience : Nat) (stream : ρ) :
    SameEnd (fun winner draws => draws.length = contestants ∧
        (∀ draw ∈ draws, draw < population.size) ∧
        ∃ place, population.Wins score draws winner place)
      ((population.tournament contestants score).run patience stream)
      (Draw.run patience (replicate contestants (Draw.index population.size)) stream) := by
  have alike := (runsAlike_drawSlot occupied patience).replicate contestants stream
  have counted (draws : List Nat) (after : ρ)
      (run : Script.run (Choice.serve patience)
        (replicate contestants (Draw.index population.size)) stream = .ok (draws, after)) :
      draws.length = contestants ∧ ∀ draw ∈ draws, draw < population.size :=
    Draw.of_run (ensures_replicate (Draw.ensures_index occupied) contestants) run
  rw [tournament, Draw.run, Draw.run, run_bind]
  revert alike counted
  generalize Script.run (Choice.serve patience) (replicate contestants population.drawSlot)
    stream = slots_run
  generalize Script.run (Choice.serve patience)
    (replicate contestants (Draw.index population.size)) stream = draws_run
  rintro (reason | @⟨drawn, draws, after, related⟩) counted
  · exact .fault reason
  · obtain ⟨length_eq, inside⟩ := counted draws after rfl
    cases related with
    | nil => exact absurd length_eq (Nat.ne_of_lt positive)
    | cons head tail =>
      exact .value ⟨length_eq, inside, exists_wins_of_drawn (.cons head tail)⟩

end Stream

/-- Both selections keep the first of the best. The search for the best member finds the one slot
that no slot beats and that beats all slots in front of it. A tournament ends as plain draws of an
index do, one for each contestant: in the same fault, which can only be that a redraw loop does not
come to an end, or behind the same words and with the first of the best among the slots drawn. Where
all is NaN, the first slot is kept, and the one drawn first. -/
theorem selections_keep_first_best (population : Population) (occupied : 0 < population.size) :
    (∃ slot index, population.best? = some (slot, index)) ∧
    (∀ slot index, population.best? = some (slot, index) ↔ population.IsFirstBest slot index) ∧
    ((∀ slot, population.Holds slot → slot.fitness.isNaN = true) →
      ∃ slot, population.best? = some (slot, 0)) ∧
    ∀ (contestants : Nat) (score : TournamentScore), 0 < contestants →
      ∀ (ρ : Type) [WordStream ρ] (patience : Nat) (stream : ρ),
        SameEnd (fun winner draws => draws.length = contestants ∧
            (∀ draw ∈ draws, draw < population.size) ∧
            ∃ place, population.Wins score draws winner place ∧
              ((∀ draw ∈ draws, ∀ slot, population.slot? draw = some slot →
                (score.of slot).isNaN = true) → place = 0) ∧
              ((∀ slot, population.Holds slot → slot.fitness.isNaN = true) → place = 0))
          ((population.tournament contestants score).run patience stream)
          (Draw.run patience (replicate contestants (Draw.index population.size)) stream) ∧
        ∀ reason, (population.tournament contestants score).run patience stream = .error reason →
          reason = .stalled := by
  obtain ⟨slot, index, found⟩ := exists_best? occupied
  refine ⟨⟨slot, index, found⟩, fun _ _ => best?_eq_some_iff, ?_, ?_⟩
  · intro nans
    obtain rfl := (isFirstBest_of_best? found).index_eq_zero nans
    exact ⟨slot, found⟩
  · intro contestants score positive ρ _ patience stream
    refine ⟨(sameEnd_tournament occupied positive score patience stream).mono ?_, ?_⟩
    · rintro winner draws ⟨length_eq, inside, place, wins⟩
      refine ⟨length_eq, inside, place, wins, wins.place_eq_zero inside, ?_⟩
      intro nans
      apply wins.place_eq_zero inside
      intro draw _ slot slot_at
      exact score.isNaN_of (nans slot ⟨draw, slot_at⟩)
    · exact fun reason faulty => Draw.stalled_of_run (ensures_tournament occupied positive) faulty

/-- Words that bring the indices 0, 2 and 1 of three. -/
def threeWords : Tape where
  word place := if place = 3 then 0xc0000000 else if place = 5 then 0x60000000 else 0
  position := 0

/-- The best one is behind NaN and in front of its equal; its equal wins where it is drawn before
it. -/
theorem selections_keep_first_best_of_triple : ∃ slot winner place,
    (ofFitnesses [nan, 1, 1]).IsFirstBest slot 1 ∧
      ((ofFitnesses [nan, 1, 1]).tournament 3 .fitness).run 1 threeWords =
        .ok (winner, ⟨threeWords.word, 6⟩) ∧
      winner.2 = 2 ∧ (ofFitnesses [nan, 1, 1]).Wins .fitness [0, 2, 1] winner place := by
  obtain ⟨⟨slot, index, found⟩, best_iff, _, tournaments⟩ :=
    selections_keep_first_best (ofFitnesses [nan, 1, 1]) (by decide)
  have best_at : (ofFitnesses [nan, 1, 1]).best?.map Prod.snd = some 1 := by decide +kernel
  rw [found] at best_at
  obtain rfl : index = 1 := Option.some.inj best_at
  have drawn : Draw.run 1 (replicate 3 (Draw.index (ofFitnesses [nan, 1, 1]).size)) threeWords =
      .ok ([0, 2, 1], ⟨threeWords.word, 6⟩) := rfl
  obtain ⟨ends, _⟩ := tournaments 3 .fitness (by decide) Tape 1 threeWords
  rw [drawn] at ends
  obtain ⟨winner, run, _, _, place, wins, _⟩ := ends.exists_of_ok
  have winner_at : (((ofFitnesses [nan, 1, 1]).tournament 3 .fitness).run 1 threeWords).toOption.map
      (fun outcome => outcome.1.2) = some 2 := by decide +kernel
  rw [run] at winner_at
  exact ⟨slot, winner, place, (best_iff slot 1).mp found, run, Option.some.inj winner_at, wins⟩

end Population

end EvoSearch
