/-
# Pairs of populations

Two populations are a pair if their slots are related one by one. As long as related slots are
ranked alike, whatever is drawn from such a pair is drawn from both in the same way: the best slots
are at the same index, and so are the winners of a tournament. What the slots have in common is up
to the relation, so that one and the same argument serves to compare searches that keep different
fitnesses, and searches that differ in what they note beside them.
-/

import Mathlib.Data.List.Forall2
import EvoSearch.Population.Selection
import EvoSearch.Proofs.Lockstep

namespace EvoSearch

open Script

section Lockstep

variable {I : Interface} {α β γ δ ι κ : Type} {shared : I.Query → Prop}
  {granted : (q : I.Query) → I.Answer q → Prop}

/-- Values that are there on both sides, or on neither. -/
theorem Script.inStep_ofOption {post : α → β → Prop} {value : Option α} {other : Option β}
    (related : Option.Rel post value other) (reason : Fault) :
    InStep shared granted post (ofOption reason value) (ofOption reason other) := by
  cases related with
  | none => exact .stuck reason _
  | some holds => exact .done holds

/-- Loops over paired items stay in lockstep if their rounds do. -/
theorem Script.inStep_foldlM {post : α → β → Prop} {items : ι → κ → Prop}
    {f : α → ι → Script I α} {g : β → κ → Script I β}
    (round : ∀ item counterpart, items item counterpart → ∀ state twin, post state twin →
      InStep shared granted post (f state item) (g twin counterpart))
    {row : List ι} {others : List κ} (paired : List.Forall₂ items row others) {state : α} {twin : β}
    (holds : post state twin) :
    InStep shared granted post (row.foldlM f state) (others.foldlM g twin) := by
  induction paired generalizing state twin with
  | nil => exact .done holds
  | cons head _ ih =>
    rw [List.foldlM_cons, List.foldlM_cons]
    exact (round _ _ head state twin holds).bind fun _ _ => ih

theorem Script.inStep_replicate {post : α → β → Prop} {body : Script I α} {other : Script I β}
    (inStep : InStep shared granted post body other) (count : Nat) :
    InStep shared granted (List.Forall₂ post) (replicate count body) (replicate count other) := by
  induction count with
  | zero => exact .done .nil
  | succ count ih =>
    rw [replicate_succ, replicate_succ]
    apply inStep.bind
    intro head counterpart head_related
    apply ih.bind
    intro tail others tail_related
    exact .done (.cons head_related tail_related)

end Lockstep

namespace Draw

variable {α β ρ : Type} [Random.WordStream ρ]

/-- Two draws ask chance the same questions, and end in results that are related. -/
abbrev Paired (post : α → β → Prop) : Draw α → Draw β → Prop :=
  InStep (fun _ => True) (fun _ _ => True) post

theorem paired_self (draw : Draw α) : Paired (fun value other => other = value) draw draw := by
  induction draw with
  | done value => exact .done rfl
  | fault reason => exact .stuck reason _
  | ask choice next ih => exact .both trivial ih

/-- On the same words, paired draws end behind the same words. -/
theorem Paired.run {post : α → β → Prop} {draw : Draw α} {other : Draw β}
    (paired : Paired post draw other) {patience : Nat} {words after : ρ} {value : α}
    (drawn : draw.run patience words = .ok (value, after)) :
    ∃ result, other.run patience words = .ok (result, after) ∧ post value result := by
  induction paired generalizing words with
  | done holds =>
    obtain ⟨rfl, rfl⟩ := Prod.mk.inj (Except.ok.inj drawn)
    exact ⟨_, rfl, holds⟩
  | stuck reason other => cases drawn
  | both _ _ ih =>
    rw [Draw.run, Script.run] at drawn ⊢
    split at drawn
    · cases drawn
    · exact ih _ drawn
  | first apart => exact (apart trivial).elim
  | second apart => exact (apart trivial).elim

end Draw

/-- Two scores rank what is related in the same way. -/
def RanksAlike {α β : Type} (related : α → β → Prop) (score : α → Float) (points : β → Float) :
    Prop :=
  ∀ a b, related a b → ∀ a' b', related a' b' →
    beats (points b) (points b') = beats (score a) (score a')

theorem champion_related {α β : Type} {related : α → β → Prop} {score : α → Float}
    {points : β → Float} (alike : RanksAlike related score points) {leader : α} {other : β}
    (heads : related leader other) {row : List α} {others : List β}
    (rows : List.Forall₂ related row others) :
    related (champion score leader row) (champion points other others) := by
  induction rows generalizing leader other with
  | nil => exact heads
  | cons head _ ih =>
    apply ih
    rw [alike _ _ head _ _ heads]
    split
    · exact head
    · exact heads

/-- Entries that are related, at the same index. -/
def PlacedAlike {α β : Type} (related : α → β → Prop) (place : α × Nat) (other : β × Nat) : Prop :=
  related place.1 other.1 ∧ other.2 = place.2

theorem optionRel_imp {α β : Type} {related weaker : α → β → Prop}
    (weaken : ∀ a b, related a b → weaker a b) {value : Option α} {other : Option β}
    (holds : Option.Rel related value other) : Option.Rel weaker value other := by
  cases holds with
  | none => exact .none
  | some holds => exact .some (weaken _ _ holds)

theorem optionRel_symm {α β : Type} {related : α → β → Prop} {turned : β → α → Prop}
    (turn : ∀ a b, related a b → turned b a) {value : Option α} {other : Option β}
    (holds : Option.Rel related value other) : Option.Rel turned other value := by
  cases holds with
  | none => exact .none
  | some holds => exact .some (turn _ _ holds)

section Rows

variable {α β : Type} {rel : α → β → Prop} {row : List α} {others : List β}
  (paired : List.Forall₂ rel row others)
include paired

theorem forall₂_getElem? (index : Nat) : Option.Rel rel row[index]? others[index]? := by
  induction paired generalizing index with
  | nil => exact .none
  | cons head _ ih =>
    cases index with
    | zero => exact .some head
    | succ index => exact ih index

theorem forall₂_set {a : α} {b : β} (holds : rel a b) (index : Nat) :
    List.Forall₂ rel (row.set index a) (others.set index b) := by
  induction paired generalizing index with
  | nil => exact .nil
  | cons head tail ih =>
    cases index with
    | zero => exact .cons holds tail
    | succ index => exact .cons head (ih index)

theorem forall₂_zipIdx (first : Nat) :
    List.Forall₂ (PlacedAlike rel) (row.zipIdx first) (others.zipIdx first) := by
  induction paired generalizing first with
  | nil => exact .nil
  | cons head _ ih => exact .cons ⟨head, rfl⟩ (ih (first + 1))

theorem exists_of_mem_left {a : α} (a_mem : a ∈ row) : ∃ b ∈ others, rel a b := by
  induction paired with
  | nil => cases a_mem
  | cons head _ ih =>
    rcases List.mem_cons.mp a_mem with rfl | behind
    · exact ⟨_, List.mem_cons_self, head⟩
    · obtain ⟨b, b_mem, holds⟩ := ih behind
      exact ⟨b, List.mem_cons_of_mem _ b_mem, holds⟩

/-- What is made of related entries in the same way is the same. -/
theorem map_eq_of_forall₂ {δ : Type} {f : α → δ} {g : β → δ}
    (same : ∀ a b, rel a b → g b = f a) : others.map g = row.map f := by
  induction paired with
  | nil => rfl
  | cons head _ ih => rw [List.map_cons, List.map_cons, same _ _ head, ih]

end Rows

namespace Population

variable {related : Slot → Slot → Prop} {population other : Population} {slot counterpart : Slot}

/-- The slots of two populations are related one by one. -/
def Pairs (related : Slot → Slot → Prop) (population other : Population) : Prop :=
  List.Forall₂ related population.slots.toList other.slots.toList

theorem Pairs.size_eq (pairs : population.Pairs related other) : other.size = population.size := by
  simpa [size] using pairs.length_eq.symm

theorem pairs_ofSize (holds : related slot counterpart) (size : Nat) :
    Pairs related ⟨Array.replicate size slot⟩ ⟨Array.replicate size counterpart⟩ := by
  rw [Pairs, Array.toList_replicate, Array.toList_replicate]
  induction size with
  | zero => exact .nil
  | succ size ih => exact .cons holds ih

/-- What is made of related slots in the same way is the same. -/
theorem Pairs.map_eq {α : Type} {f : Slot → α} (pairs : population.Pairs related other)
    (same : ∀ slot counterpart, related slot counterpart → f counterpart = f slot) :
    other.slots.toList.map f = population.slots.toList.map f :=
  map_eq_of_forall₂ pairs same

theorem Pairs.slot? (pairs : population.Pairs related other) (index : Nat) :
    Option.Rel related (population.slot? index) (other.slot? index) := by
  have placed := forall₂_getElem? pairs index
  rwa [Array.getElem?_toList, Array.getElem?_toList] at placed

theorem Pairs.set (pairs : population.Pairs related other) (holds : related slot counterpart)
    (index : Nat) : (population.set index slot).Pairs related (other.set index counterpart) := by
  rw [Pairs, Population.set, Population.set, Array.toList_setIfInBounds,
    Array.toList_setIfInBounds]
  exact forall₂_set pairs holds index

theorem Pairs.replace? (pairs : population.Pairs related other) (holds : related slot counterpart)
    (index : Nat) : Option.Rel (Pairs related) (population.replace? index slot)
      (other.replace? index counterpart) := by
  rw [Population.replace?, Population.replace?, pairs.size_eq]
  split
  · exact .some (pairs.set holds index)
  · exact .none

/-- The best slots of a pair are at the same index. -/
theorem Pairs.best? (alike : RanksAlike related Slot.fitness Slot.fitness)
    (pairs : population.Pairs related other) :
    Option.Rel (PlacedAlike related) population.best? other.best? := by
  rw [Population.best?, Population.best?]
  have places := forall₂_zipIdx pairs 0
  revert places
  generalize population.slots.toList.zipIdx = row
  generalize other.slots.toList.zipIdx = others
  intro places
  cases places with
  | nil => exact .none
  | cons head tail =>
    refine .some (champion_related ?_ head tail)
    exact fun a b first a' b' second => alike _ _ first.1 _ _ second.1

theorem Pairs.paired_drawSlot (pairs : population.Pairs related other) :
    Draw.Paired (PlacedAlike related) population.drawSlot other.drawSlot := by
  rw [drawSlot, drawSlot, pairs.size_eq]
  apply (Draw.paired_self (Draw.index population.size)).bind
  rintro index _ rfl
  apply (inStep_ofOption (pairs.slot? _) .outOfRange).bind
  intro slot counterpart holds
  exact .done ⟨holds, rfl⟩

/-- The winners of a tournament are at the same index. -/
theorem Pairs.paired_tournament {score points : TournamentScore}
    (alike : RanksAlike related score.of points.of) (pairs : population.Pairs related other)
    (contestants : Nat) : Draw.Paired (PlacedAlike related)
      (population.tournament contestants score) (other.tournament contestants points) := by
  apply (inStep_replicate pairs.paired_drawSlot contestants).bind
  intro drawn others places
  cases places with
  | nil => exact .stuck _ _
  | cons head tail =>
    refine .done (champion_related ?_ head tail)
    exact fun a b first a' b' second => alike _ _ first.1 _ _ second.1

end Population

end EvoSearch
