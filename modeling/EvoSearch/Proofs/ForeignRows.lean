/-
# Rows of other runs

A store in memory is asked for members of other runs and brings a sample of its rows. Rows may be
alike, so that none is taken twice is a fact about their places in the table: the rows brought have
places of their own there, all of them under other runs. The places are carried along with the rows
that a sample was drawn from.
-/

import Mathlib.Data.List.FinRange
import EvoSearch.Proofs.Drawing
import EvoSearch.Proofs.Tables

namespace EvoSearch.Store

open Script

variable {memory : Memory} {run : Int64} {count : Nat} {rows : List Scored}

/-- A sub-row of what comes of another one comes of a sub-row. -/
theorem exists_of_subperm_map {α β : Type} {f : α → β} {row : List β} {origins : List α}
    (subperm : row.Subperm (origins.map f)) :
    ∃ picked : List α, picked.Subperm origins ∧ row = picked.map f := by
  obtain ⟨ordered, perm, sublist⟩ := subperm
  obtain ⟨kept, kept_sublist, rfl⟩ := List.sublist_map_iff.mp sublist
  obtain ⟨picked, picked_perm, rfl⟩ := exists_of_perm_map perm.symm
  exact ⟨picked, picked_perm.subperm.trans kept_sublist.subperm, rfl⟩

namespace Memory

/-- The places of the table that hold members of other runs. -/
def foreignPlaces (memory : Memory) (run : Int64) : List (Fin memory.members.length) :=
  (List.finRange memory.members.length).filter fun place => memory.members[place].run != run

theorem mem_foreignPlaces_iff {place : Fin memory.members.length} :
    place ∈ memory.foreignPlaces run ↔ memory.members[place].run ≠ run := by
  simp [foreignPlaces]

theorem nodup_foreignPlaces : (memory.foreignPlaces run).Nodup :=
  (List.nodup_finRange _).filter _

theorem foreignTo_eq : memory.foreignTo run =
    (memory.foreignPlaces run).map fun place => memory.members[place].scored := by
  have members_eq : memory.members =
      (List.finRange memory.members.length).map fun place => memory.members[place] :=
    (List.map_getElem_finRange memory.members).symm
  rw [foreignTo, foreignPlaces]
  conv_lhs => rw [members_eq]
  rw [List.filter_map, List.map_map]
  rfl

theorem length_foreignTo :
    (memory.foreignTo run).length = memory.members.countP fun entry => entry.run != run := by
  rw [foreignTo, List.length_map, List.countP_eq_length_filter]

/-- Some rows of other runs, as many as asked for or else all of them, with a place of its own in
the table for each. -/
structure TakesApart (memory : Memory) (run : Int64) (count : Nat) (rows : List Scored) :
    Prop where
  length_eq : rows.length = min count (memory.members.countP fun entry => entry.run != run)
  places : ∃ place : Fin rows.length → Fin memory.members.length, Function.Injective place ∧
    ∀ index, memory.members[place index].run ≠ run ∧
      memory.members[place index].scored = rows[index]
  whole : (memory.members.countP fun entry => entry.run != run) ≤ count →
    rows.Perm (memory.foreignTo run)

theorem takesApart_of_subperm (length_eq : rows.length = min count (memory.foreignTo run).length)
    (inside : rows.Subperm (memory.foreignTo run)) : memory.TakesApart run count rows := by
  rw [length_foreignTo] at length_eq
  refine ⟨length_eq, ?_, fun enough => inside.perm_of_length_le ?_⟩
  · rw [foreignTo_eq] at inside
    obtain ⟨picked, picked_inside, rfl⟩ := exists_of_subperm_map inside
    have nodup : picked.Nodup := by
      obtain ⟨ordered, perm, sublist⟩ := picked_inside
      exact perm.nodup_iff.mp (nodup_foreignPlaces.sublist sublist)
    refine ⟨fun index => picked[index.cast (List.length_map _)], ?_, fun index => ⟨?_, ?_⟩⟩
    · intro index other same
      exact Fin.ext ((List.Nodup.getElem_inj_iff nodup).mp same)
    · exact mem_foreignPlaces_iff.mp (picked_inside.subset (List.getElem_mem _))
    · simp
  · rw [length_foreignTo, length_eq]
    exact Nat.le_of_eq (Nat.min_eq_right enough).symm

theorem ensures_sample_takesApart (memory : Memory) (run : Int64) (count : Nat) :
    (Backend.serve (.sample run count) memory).Ensures Choice.Admits fun outcome =>
      ∃ rows, outcome = (.ok rows, memory) ∧ memory.TakesApart run count rows := by
  apply (Draw.ensures_sample (memory.foreignTo run) count).bind
  rintro rows ⟨length_eq, inside⟩
  exact ⟨rows, rfl, takesApart_of_subperm length_eq inside⟩

/-- Whatever numbers chance brings, as long as they are in range, a sample has as many rows as asked
for, or all rows of other runs if there are no more. No row is taken twice and none of the run's
own, and the tables stay as they are. So it goes on every stream of words, unless a redraw loop does
not come to an end there. -/
theorem sample_takes_apart (memory : Memory) (run : Int64) (count : Nat) :
    ((Backend.serve (.sample run count) memory).Ensures Choice.Admits fun outcome =>
      ∃ rows, outcome = (.ok rows, memory) ∧ memory.TakesApart run count rows) ∧
    ∀ (ρ : Type) [Random.WordStream ρ] (patience : Nat) (words : ρ),
      (⟨memory, words⟩ : Session Memory ρ).serve patience Outage.none (.sample run count) =
        .error .stalled ∨
      ∃ rows after,
        (⟨memory, words⟩ : Session Memory ρ).serve patience Outage.none (.sample run count) =
          .ok (.ok rows, ⟨memory, after⟩) ∧
        memory.TakesApart run count rows := by
  have ensures := ensures_sample_takesApart memory run count
  refine ⟨ensures, fun ρ _ patience words => ?_⟩
  cases served : (Backend.serve (.sample run count) memory).run patience words with
  | error reason =>
    left
    obtain rfl := Draw.stalled_of_run ensures served
    rw [Session.serve, Outage.none, served]
  | ok outcome =>
    right
    obtain ⟨⟨reply, tables⟩, after⟩ := outcome
    obtain ⟨rows, rows_eq, takes⟩ := Draw.of_run ensures served
    obtain ⟨rfl, rfl⟩ := Prod.mk.inj rows_eq
    exact ⟨rows, after, by rw [Session.serve, Outage.none, served], takes⟩

end Memory

end EvoSearch.Store
