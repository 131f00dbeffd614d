/-
# A store in memory and a database agree

After the same calls, a store in memory and a database have given the same replies and answer the
same questions alike. How a sample is drawn is up to each of them, so what agrees about samples is
what they can be: as many rows as were asked for or all there are, out of the same rows of other
runs. Of the best rows each may pick one of its own, where several are best.
-/

import EvoSearch.Proofs.Tables

namespace EvoSearch

open Script Store Numeric

/-- The same program, with a fitness that is the same number or NaN on both sides. -/
structure Scored.Same (scored other : Scored) : Prop where
  program : scored.program = other.program
  fitness : SameNumber scored.fitness other.fitness

theorem Scored.same_restored (scored : Scored) : scored.restored.Same scored where
  program := rfl
  fitness := sameNumber_iff.mpr (height_restored scored)

/-- Where a property holds of one member at the most, it tells members apart. -/
theorem eq_of_countP_le_one {α : Type} {row : List α} {holds : α → Bool}
    (single : row.countP holds ≤ 1) {a b : α} (a_mem : a ∈ row) (b_mem : b ∈ row)
    (a_holds : holds a = true) (b_holds : holds b = true) : a = b := by
  have a_left : a ∈ row.filter holds := List.mem_filter.mpr ⟨a_mem, a_holds⟩
  have b_left : b ∈ row.filter holds := List.mem_filter.mpr ⟨b_mem, b_holds⟩
  rw [List.countP_eq_length_filter] at single
  match left : row.filter holds with
  | [] =>
    rw [left] at a_left
    cases a_left
  | [only] =>
    rw [left] at a_left b_left
    rw [List.mem_singleton.mp a_left, List.mem_singleton.mp b_left]
  | _ :: _ :: _ =>
    rw [left] at single
    simp at single

namespace Store

/-- Calls that leave something behind are granted by both stores, with the same replies. -/
theorem Database.Copies.exists_serveAll {database : Database} {memory : Memory}
    (copies : database.Copies memory) {calls : List Call}
    (changing : ∀ call ∈ calls, call.changes = true) : ∃ replies database',
      serveAll calls memory = pure (replies, memory.afterAll calls) ∧
      serveAll calls database = pure (replies, database') ∧
      (∀ line ∈ replies, ∃ granted, line.2 = .ok granted) ∧
      database'.Copies (memory.afterAll calls) := by
  induction calls generalizing database memory with
  | nil => exact ⟨[], database, rfl, rfl, by rintro _ ⟨⟩, copies⟩
  | cons call calls ih =>
    obtain ⟨reply, between, in_memory, in_database, copies'⟩ :=
      copies.serve_change (changing call List.mem_cons_self)
    obtain ⟨replies, database', rest_memory, rest_database, granted, copies''⟩ :=
      ih copies' fun other mem => changing other (List.mem_cons_of_mem call mem)
    refine ⟨⟨call, .ok reply⟩ :: replies, database', ?_, ?_, ?_, copies''⟩
    · rw [serveAll, in_memory]
      simp only [pure_eq_done, done_bind, rest_memory]
      rfl
    · rw [serveAll, in_database]
      simp only [pure_eq_done, done_bind, rest_database]
    · exact List.forall_mem_cons.mpr ⟨⟨reply, rfl⟩, granted⟩

/-- What a sample of `count` rows out of `all` may be: no row is taken twice, and all are if there
are no more of them. -/
structure IsSample (count : Nat) (all picked : List Scored) : Prop where
  length_eq : picked.length = min count all.length
  inside : picked.Subperm all
  whole : all.length ≤ count → picked.Perm all

theorem isSample_of_subperm {count : Nat} {all picked : List Scored}
    (length_eq : picked.length = min count all.length) (inside : picked.Subperm all) :
    IsSample count all picked where
  length_eq := length_eq
  inside := inside
  whole enough := inside.perm_of_length_le (by omega)

/-- Two stores answer the same questions alike. -/
structure AnswerAlike (memory : Memory) (database : Database) : Prop where
  sample_memory : ∀ run count,
    (Backend.serve (.sample run count) memory).Ensures Choice.Admits fun outcome =>
      ∃ rows, outcome = (.ok rows, memory) ∧ IsSample count (memory.foreignTo run) rows
  /-- A count is a word of 64 bits. From `2 ^ 63` on it is taken for no limit at all, which makes a
  difference only if there are more rows than that. -/
  sample_database : ∀ run count, count < UInt64.size →
    count < 0x8000000000000000 ∨ (memory.foreignTo run).length ≤ count →
    (Backend.serve (.sample run count) database).Ensures Choice.Admits fun outcome =>
      ∃ rows, outcome = (.ok rows, database) ∧
        ∃ picked, IsSample count (memory.foreignTo run) picked ∧
          List.Forall₂ Scored.Same rows picked
  best : ∀ run, ∃ found kept,
    Backend.serve (.best run) memory = pure (.ok found, memory) ∧
    Backend.serve (.best run) database = pure (.ok kept, database) ∧
    Option.Rel (fun best other => SameNumber best.fitness other.fitness ∧
      ((memory.candidates run).countP (fun row => row.fitness == best.fitness) ≤ 1 →
        best.program = other.program)) found kept

/-- One of the best members and one that is kept of them are the same number, and are the same if
only one of them is best. -/
theorem same_of_isHighest {row : List Scored} {best other : Scored}
    (numbers : ∀ scored ∈ row, scored.fitness.isNaN = false)
    (highest : IsHighest (fun scored => height scored.fitness) row best)
    (other_highest : IsHighest (fun scored => height scored.fitness) row other) :
    SameNumber best.fitness other.restored.fitness ∧
      (row.countP (fun scored => scored.fitness == best.fitness) ≤ 1 →
        best.program = other.restored.program) := by
  obtain ⟨best_mem, over_all⟩ := highest
  obtain ⟨other_mem, other_over_all⟩ := other_highest
  have height_eq : height best.fitness = height other.fitness :=
    Int.le_antisymm (other_over_all best best_mem) (over_all other other_mem)
  have is_best {scored : Scored} (mem : scored ∈ row)
      (same : height scored.fitness = height best.fitness) :
      (scored.fitness == best.fitness) = true :=
    beq_iff.mpr ⟨numbers scored mem, numbers best best_mem, same⟩
  refine ⟨sameNumber_iff.mpr (height_eq.trans (height_restored other).symm), fun single => ?_⟩
  rw [eq_of_countP_le_one single best_mem other_mem (is_best best_mem rfl)
    (is_best other_mem height_eq.symm)]
  rfl

theorem Database.Copies.answerAlike {database : Database} {memory : Memory}
    (copies : database.Copies memory) : AnswerAlike memory database where
  sample_memory run count := by
    apply (Draw.ensures_sample (memory.foreignTo run) count).bind
    rintro rows ⟨length_eq, subperm⟩
    exact ⟨rows, rfl, isSample_of_subperm length_eq subperm⟩
  sample_database run count word room := by
    apply (copies.ensures_sample run count).mono
    rintro _ ⟨picked, rfl, subperm, length_eq⟩
    refine ⟨_, rfl, picked, ?_, ?_⟩
    · exact isSample_of_subperm (length_eq.trans (length_limited word room)) subperm
    · exact List.forall₂_map_left_iff.mpr (List.forall₂_same.mpr fun row _ => row.same_restored)
  best run := by
    obtain ⟨kept, served, none_kept, kept_highest⟩ := copies.serve_best run
    refine ⟨_, _, rfl, served, ?_⟩
    cases kept with
    | none =>
      rw [none_kept rfl]
      exact .none
    | some other =>
      have other_highest := kept_highest other rfl
      cases found : Memory.lastBest? (memory.candidates run) with
      | none =>
        rw [Memory.eq_nil_of_lastBest? found] at other_highest
        exact (List.not_mem_nil other_highest.1).elim
      | some best =>
        exact .some (same_of_isHighest (fun _ => Memory.isNaN_of_mem_candidates)
          (Memory.isHighest_of_lastBest? found) other_highest)

/-- A new store in memory and a new database that serve the same calls, of those that leave
something behind, give the same replies and answer the same questions alike from then on. -/
theorem backends_agree {calls : List Call} (changing : ∀ call ∈ calls, call.changes = true) :
    ∃ replies database,
      serveAll calls Memory.empty = pure (replies, Memory.empty.afterAll calls) ∧
      serveAll calls Database.empty = pure (replies, database) ∧
      (∀ line ∈ replies, ∃ granted, line.2 = .ok granted) ∧
      AnswerAlike (Memory.empty.afterAll calls) database := by
  obtain ⟨replies, database, in_memory, in_database, granted, copies⟩ :=
    Database.copies_empty.exists_serveAll changing
  exact ⟨replies, database, in_memory, in_database, granted, copies.answerAlike⟩

/-- What two runs leave behind: a NaN, a zero with a sign, and a result that is infinite. -/
def pairCalls : List Call :=
  [.publish 1 [⟨copier, nan⟩, ⟨.empty, -0.0⟩], .publish 2 [⟨copier, 1⟩],
    .logFinal 2 ⟨copier, infinity⟩, .withdraw 2]

/-- However many rows run 2 asks the database for, it gets the two of run 1, as the limit wraps
around to none; and the best is the result. -/
theorem backends_agree_of_pair : ∃ replies database,
    serveAll pairCalls Database.empty = pure (replies, database) ∧
      (Backend.serve (.sample 2 0xffffffffffffffff) database).Ensures Choice.Admits (fun outcome =>
        ∃ rows, outcome = (.ok rows, database) ∧ rows.length = 2) ∧
      ∃ kept, Backend.serve (.best none) database = pure (.ok (some kept), database) ∧
        kept.program = copier := by
  have changing : ∀ call ∈ pairCalls, call.changes = true := by decide
  obtain ⟨replies, database, _, in_database, _, alike⟩ := backends_agree changing
  refine ⟨replies, database, in_database, ?_, ?_⟩
  · apply (alike.sample_database 2 0xffffffffffffffff (by decide) (by decide)).mono
    rintro _ ⟨rows, rfl, picked, ⟨length_eq, _, _⟩, same⟩
    exact ⟨rows, rfl, same.length_eq.trans length_eq⟩
  · obtain ⟨found, kept, in_memory, in_database, same⟩ := alike.best none
    have single : ((Memory.lastBest? ((Memory.empty.afterAll pairCalls).candidates none)).any
        fun best => best.program = copier &&
          ((Memory.empty.afterAll pairCalls).candidates none).countP
            (fun row => row.fitness == best.fitness) ≤ 1) = true := by
      decide +kernel
    rw [Except.ok.inj (Prod.mk.inj (Script.done.inj in_memory)).1] at single
    obtain ⟨best, rfl, best_only⟩ := (Option.any_eq_true _ _).mp single
    simp only [Bool.and_eq_true, decide_eq_true_eq] at best_only
    obtain ⟨_, same_program⟩ := same
    exact ⟨_, in_database, (same_program best_only.2).symm.trans best_only.1⟩

end Store

end EvoSearch
