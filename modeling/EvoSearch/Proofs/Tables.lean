/-
# What a database keeps

A database that serves the same calls as a store in memory keeps the same members and results, each
as a row of cells: the program as text, the fitness as a number or as nothing. A row is read back as
the program that it was made from, with a fitness that is the same number or NaN as before; only
the sign of a zero is lost.
-/

import Mathlib.Data.List.Perm.Subperm
import EvoSearch.Proofs.Encoding
import EvoSearch.Proofs.Order
import EvoSearch.Proofs.Sampling
import EvoSearch.Proofs.Sharing
import EvoSearch.Store.Database

namespace EvoSearch

open Script Store Numeric

/-- A member with the fitness that is read back from the cell of its own. -/
def Scored.restored (scored : Scored) : Scored :=
  { scored with fitness := (storedReal scored.fitness).getD nan }

theorem storedReal_of_isNaN {x : Float} (is_nan : x.isNaN = true) : storedReal x = none := by
  rw [storedReal, if_pos is_nan]

theorem exists_storedReal {x : Float} (number : x.isNaN = false) :
    ∃ y, storedReal x = some y ∧ height y = height x := by
  rw [storedReal, number]
  cases zero : x == 0 with
  | false => exact ⟨x, rfl, rfl⟩
  | true =>
    obtain ⟨-, -, height_eq⟩ := beq_iff.mp zero
    exact ⟨0, rfl, height_eq.symm⟩

theorem nan_isNaN : nan.isNaN = true := by
  decide

theorem height_restored (scored : Scored) :
    height scored.restored.fitness = height scored.fitness := by
  rw [Scored.restored]
  cases number : scored.fitness.isNaN with
  | true =>
    rw [storedReal_of_isNaN number, height_of_isNaN number]
    exact height_of_isNaN nan_isNaN
  | false =>
    obtain ⟨y, stored, height_eq⟩ := exists_storedReal number
    rw [stored]
    exact height_eq

theorem isNaN_restored (scored : Scored) :
    scored.restored.fitness.isNaN = scored.fitness.isNaN := by
  rw [Bool.eq_iff_iff, isNaN_iff, isNaN_iff, height_restored]

namespace Store

theorem readBack_encode (scored : Scored) :
    Database.readBack scored.program.encode (storedReal scored.fitness) = .ok scored.restored := by
  rw [Database.readBack, Program.decode?_encode]
  rfl

/-- The row of an entry among the published programs. -/
def Entry.programRow (entry : Entry) : ProgramRow :=
  .ofScored entry.run entry.scored

/-- The row of an entry among the results. -/
def Entry.resultRow (entry : Entry) : ResultRow :=
  .ofScored entry.run entry.scored

/-- A database keeps the members and results that a store in memory keeps, and misses no table. -/
structure Database.Copies (database : Database) (memory : Memory) : Prop where
  programs : database.programs = some (memory.members.map Entry.programRow)
  results : database.results = some (memory.finals.map Entry.resultRow)
  diversity : ∃ rows, database.diversity = some rows
  progress : ∃ rows, database.progress = some rows

theorem Database.copies_empty : Database.empty.Copies .empty where
  programs := rfl
  results := rfl
  diversity := ⟨[], rfl⟩
  progress := ⟨[], rfl⟩

/-- Whether a call leaves something behind, rather than ask for something. -/
def Call.changes : Call → Bool
  | sample _ _ => false
  | best _ => false
  | _ => true

namespace Database.Copies

variable {database : Database} {memory : Memory} {run : Int64}

/-- A call that leaves something behind is granted by both stores, with one and the same reply. -/
theorem serve_change (copies : database.Copies memory) {call : Call}
    (changes : call.changes = true) : ∃ (reply : call.Reply) (database' : Database),
      Backend.serve call memory = pure (.ok reply, memory.after call) ∧
      Backend.serve call database = pure (.ok reply, database') ∧
      database'.Copies (memory.after call) := by
  obtain ⟨programs_eq, results_eq, ⟨diversity, diversity_eq⟩, progress, progress_eq⟩ := copies
  obtain ⟨_, _, _, _⟩ := database
  subst programs_eq results_eq diversity_eq progress_eq
  cases call with
  | withdraw run =>
    refine ⟨(), _, rfl, rfl, congrArg some ?_, rfl, ⟨_, rfl⟩, _, rfl⟩
    exact List.filter_map
  | publish run members =>
    refine ⟨members.length, _, rfl, rfl, congrArg some ?_, rfl, ⟨_, rfl⟩, _, rfl⟩
    simp [Memory.after, Entry.programRow, Function.comp_def]
  | logProgress record => exact ⟨(), _, rfl, rfl, rfl, rfl, ⟨_, rfl⟩, _, rfl⟩
  | logDiversity records => exact ⟨(), _, rfl, rfl, rfl, rfl, ⟨_, rfl⟩, _, rfl⟩
  | logFinal run result =>
    refine ⟨(), _, rfl, rfl, rfl, congrArg some ?_, ⟨_, rfl⟩, _, rfl⟩
    simp [Memory.after, Entry.resultRow]
  | sample run count => cases changes
  | best run => cases changes

end Database.Copies

/-- A row that is a rearrangement of what comes of another one comes of a rearrangement. -/
theorem exists_of_perm_map {α β : Type} {f : α → β} {row : List β} {origins : List α}
    (perm : row.Perm (origins.map f)) :
    ∃ ordered : List α, ordered.Perm origins ∧ row = ordered.map f := by
  have of_origins :
      List.Forall₂ (fun image origin => image = f origin) (origins.map f) origins := by
    simp [List.forall₂_map_left_iff, List.forall₂_same]
  obtain ⟨ordered, images, ordered_perm⟩ := List.perm_comp_forall₂ perm of_origins
  refine ⟨ordered, ordered_perm, ?_⟩
  rwa [← List.forall₂_eq_eq_eq, List.forall₂_map_right_iff]

namespace Database

variable {α β : Type}

theorem ensures_shuffled (rows : List α) :
    (shuffled rows).Ensures Choice.Admits fun mixed => mixed.Perm rows := by
  have any_word : Draw.word.Ensures Choice.Admits fun _ => True := fun _ _ => trivial
  apply (ensures_replicate any_word rows.length).bind
  rintro keys ⟨length_eq, _⟩
  show List.Perm _ _
  have sorted := (List.mergeSort_perm (keys.zip rows) fun a b => a.1 ≤ b.1).map Prod.snd
  rwa [List.map_snd_zip (Nat.le_of_eq length_eq.symm)] at sorted

theorem limited_sublist (count : Nat) (rows : List α) : (limited count rows).Sublist rows := by
  rw [limited]
  split
  · exact .refl _
  · exact List.take_sublist _ _

theorem map_limited (f : α → β) (count : Nat) (rows : List α) :
    limited count (rows.map f) = (limited count rows).map f := by
  simp only [limited]
  split
  · rfl
  · exact List.map_take.symm

/-- Below `2 ^ 63`, a limit is what it says; from there on, it does not limit anything, and does not
have to where there are not so many rows. -/
theorem length_limited {count : Nat} {rows : List α} (word : count < UInt64.size)
    (room : count < 0x8000000000000000 ∨ rows.length ≤ count) :
    (limited count rows).length = min count rows.length := by
  have limit_eq : (Int64.ofNat count).toInt = (count : Int).bmod Int64.size := Int64.toInt_ofNat'
  have limit_lt_iff : Int64.ofNat count < 0 ↔ (count : Int).bmod Int64.size < 0 := by
    rw [Int64.lt_iff_toInt_lt, limit_eq]
    rfl
  rw [Int.bmod_def] at limit_eq limit_lt_iff
  simp only [UInt64.size, Int64.size] at word limit_eq limit_lt_iff
  rw [limited]
  split
  · next negative =>
    rw [limit_lt_iff] at negative
    omega
  · next nonnegative =>
    rw [limit_lt_iff] at nonnegative
    rw [List.length_take]
    omega

theorem mapM_readBack (picked : List Entry) :
    (picked.map Entry.programRow).mapM (fun row => readBack row.encoded row.fitness) =
      .ok (picked.map fun entry => entry.scored.restored) := by
  have read : (fun row => readBack row.encoded row.fitness) ∘ Entry.programRow =
      fun entry => pure entry.scored.restored :=
    funext fun entry => readBack_encode entry.scored
  rw [List.mapM_map, read]
  exact List.mapM_pure

/-- The entries that have a number for a fitness are those with something in the cell. -/
theorem filterMap_storedReal (entries : List Entry) (wanted : Entry → Bool) :
    (entries.filter wanted).filterMap (fun entry =>
        (storedReal entry.scored.fitness).map (entry.scored.program.encode, ·)) =
      (entries.filter fun entry => wanted entry && !entry.scored.fitness.isNaN).map fun entry =>
        (entry.scored.program.encode, entry.scored.restored.fitness) := by
  rw [← List.filterMap_eq_map, List.filterMap_filter, List.filterMap_filter]
  congr 1
  funext entry
  cases number : entry.scored.fitness.isNaN with
  | true => simp [storedReal_of_isNaN number]
  | false =>
    obtain ⟨y, stored, _⟩ := exists_storedReal number
    simp [Scored.restored, stored]

/-- What is looked up are the members and results that a store in memory looks up. -/
theorem candidates_eq (memory : Memory) (run : Option Int64) :
    candidates (memory.members.map Entry.programRow) (memory.finals.map Entry.resultRow) run =
      (memory.candidates run).map fun scored =>
        (scored.program.encode, scored.restored.fitness) := by
  simp only [candidates, Memory.candidates, List.filter_append, List.map_append, List.filter_map,
    List.filterMap_map, List.map_map]
  exact congrArg₂ (· ++ ·) (filterMap_storedReal _ _) (filterMap_storedReal _ _)

end Database

namespace Database.Copies

variable {database : Database} {memory : Memory} {run : Int64} {count : Nat}

/-- A sample from a database is a sample of the same rows, read back. -/
theorem ensures_sample (copies : database.Copies memory) (run : Int64) (count : Nat) :
    (Backend.serve (.sample run count) database).Ensures Choice.Admits fun outcome =>
      ∃ picked : List Scored, outcome = (.ok (picked.map Scored.restored), database) ∧
        picked.Subperm (memory.foreignTo run) ∧
        picked.length = (limited count (memory.foreignTo run)).length := by
  simp only [Backend.serve, copies.programs]
  have rows_eq : (memory.members.map Entry.programRow).filter (fun row => row.run != run) =
      (memory.members.filter fun entry => entry.run != run).map Entry.programRow :=
    List.filter_map
  rw [rows_eq]
  apply (ensures_shuffled _).bind
  intro mixed perm
  obtain ⟨ordered, ordered_perm, rfl⟩ := exists_of_perm_map perm
  rw [map_limited, mapM_readBack]
  refine ⟨(limited count ordered).map Entry.scored, ?_, ?_, ?_⟩
  · rw [List.map_map]
    rfl
  · exact ((limited_sublist count ordered).map Entry.scored).subperm.trans
      (ordered_perm.map Entry.scored).subperm
  · rw [← map_limited, limited, limited]
    have length_eq := ordered_perm.length_eq
    split <;> simp [Memory.foreignTo, length_eq]

end Database.Copies

/-- One of the highest in a row. -/
def IsHighest {α : Type} (key : α → Int) (row : List α) (best : α) : Prop :=
  best ∈ row ∧ ∀ other ∈ row, key other ≤ key best

/-- A scan that goes on with the higher of two ends with one of the highest. -/
theorem isHighest_foldl {α : Type} {key : α → Int} {takes : α → α → Prop}
    [∀ best next, Decidable (takes best next)] {first : α} {row : List α}
    (climbs : ∀ best ∈ first :: row, ∀ next ∈ first :: row,
      (takes best next → key best ≤ key next) ∧ (¬ takes best next → key next ≤ key best)) :
    IsHighest key (first :: row)
      (row.foldl (fun best next => if takes best next then next else best) first) := by
  induction row generalizing first with
  | nil =>
    refine ⟨List.mem_cons_self, fun other mem => ?_⟩
    rw [List.mem_singleton.mp mem]
    exact Int.le_refl _
  | cons next row ih =>
    obtain ⟨goes_on, stays⟩ := climbs first List.mem_cons_self next
      (List.mem_cons_of_mem first List.mem_cons_self)
    have behind {leader : α} (leader_mem : leader ∈ first :: next :: row) :
        ∀ other ∈ leader :: row, other ∈ first :: next :: row :=
      List.forall_mem_cons.mpr ⟨leader_mem, fun other mem => by simp [mem]⟩
    have climbs_on {leader : α} (leader_mem : leader ∈ first :: next :: row) :
        ∀ best ∈ leader :: row, ∀ next ∈ leader :: row,
          (takes best next → key best ≤ key next) ∧ (¬ takes best next → key next ≤ key best) :=
      fun best best_mem next next_mem =>
        climbs best (behind leader_mem best best_mem) next (behind leader_mem next next_mem)
    rw [List.foldl_cons]
    split
    · next taken =>
      have next_mem : next ∈ first :: next :: row := by simp
      obtain ⟨mem, highest⟩ := ih (climbs_on next_mem)
      refine ⟨behind next_mem _ mem, List.forall_mem_cons.mpr ⟨?_, highest⟩⟩
      exact Int.le_trans (goes_on taken) (highest next List.mem_cons_self)
    · next left =>
      obtain ⟨mem, highest⟩ := ih (climbs_on List.mem_cons_self)
      obtain ⟨over_first, over_row⟩ := List.forall_mem_cons.mp highest
      refine ⟨behind List.mem_cons_self _ mem, ?_⟩
      exact List.forall_mem_cons.mpr ⟨over_first, List.forall_mem_cons.mpr
        ⟨Int.le_trans (stays left) over_first, over_row⟩⟩

theorem Memory.isNaN_of_mem_candidates {memory : Memory} {run : Option Int64} {scored : Scored}
    (mem : scored ∈ memory.candidates run) : scored.fitness.isNaN = false := by
  obtain ⟨entry, entry_mem, rfl⟩ := List.mem_map.mp mem
  have passed := (List.mem_filter.mp entry_mem).2
  simp only [Bool.and_eq_true, Bool.not_eq_true'] at passed
  exact passed.2

theorem Memory.eq_nil_of_lastBest? {row : List Scored} (missed : lastBest? row = none) :
    row = [] := by
  cases row with
  | nil => rfl
  | cons first row => cases missed

/-- What a store in memory answers is one of the best candidates. -/
theorem Memory.isHighest_of_lastBest? {memory : Memory} {run : Option Int64} {best : Scored}
    (found : lastBest? (memory.candidates run) = some best) :
    IsHighest (fun scored => height scored.fitness) (memory.candidates run) best := by
  have numbers (scored : Scored) (mem : scored ∈ memory.candidates run) :
      scored.fitness.isNaN = false := isNaN_of_mem_candidates mem
  revert numbers found
  cases memory.candidates run with
  | nil => rintro ⟨⟩
  | cons first row =>
    rintro ⟨rfl⟩ numbers
    apply isHighest_foldl
    intro best best_mem next next_mem
    refine ⟨height_le_of_rank_le (numbers best best_mem) (numbers next next_mem), fun lower => ?_⟩
    exact height_le_of_rank_le (numbers next next_mem) (numbers best best_mem)
      (Int.le_of_lt (Int.not_le.mp lower))

theorem Database.exists_firstHighest? {first : String × Float} {row : List (String × Float)}
    (numbers : ∀ cells ∈ first :: row, cells.2.isNaN = false) :
    ∃ best, firstHighest? (first :: row) = some best ∧
      IsHighest (fun cells => height cells.2) (first :: row) best := by
  refine ⟨_, rfl, isHighest_foldl ?_⟩
  intro best best_mem next _
  have number := numbers best best_mem
  exact ⟨fun lower => Int.le_of_lt (lt_iff.mp lower).2.2, (not_lt_iff_of_number number).mp⟩

namespace Database.Copies

variable {database : Database} {memory : Memory}

/-- What a database answers is one of the best candidates, read back, or nothing if there are
none. -/
theorem serve_best (copies : database.Copies memory) (run : Option Int64) :
    ∃ found : Option Scored,
      Backend.serve (.best run) database = pure (.ok (found.map Scored.restored), database) ∧
        (found = none → memory.candidates run = []) ∧
        ∀ best ∈ found, IsHighest (fun scored => height scored.fitness) (memory.candidates run)
          best := by
  have numbers (scored : Scored) (mem : scored ∈ memory.candidates run) :
      scored.fitness.isNaN = false := Memory.isNaN_of_mem_candidates mem
  simp only [Backend.serve, copies.programs, copies.results, candidates_eq]
  revert numbers
  generalize memory.candidates run = row
  intro numbers
  cases row with
  | nil => exact ⟨none, rfl, fun _ => rfl, by rintro best ⟨⟩⟩
  | cons first row =>
    let cells (scored : Scored) : String × Float := (scored.program.encode, scored.restored.fitness)
    have cells_numbers : ∀ best ∈ (first :: row).map cells, best.2.isNaN = false := by
      intro best best_mem
      obtain ⟨scored, scored_mem, rfl⟩ := List.mem_map.mp best_mem
      exact (isNaN_restored scored).trans (numbers scored scored_mem)
    rw [List.map_cons] at cells_numbers
    obtain ⟨_, best_found, mem, highest⟩ := exists_firstHighest? cells_numbers
    rw [← List.map_cons] at mem highest
    obtain ⟨best, best_mem, rfl⟩ := List.mem_map.mp mem
    refine ⟨some best, ?_, by rintro ⟨⟩, ?_⟩
    · rw [List.map_cons, best_found]
      simp only [cells, readBack, Program.decode?_encode]
      rfl
    · rintro _ ⟨rfl⟩
      refine ⟨best_mem, fun other other_mem => ?_⟩
      have below := highest (cells other) (List.mem_map_of_mem other_mem)
      simpa only [cells, height_restored] using below

/-- Whatever is called, a database still keeps what a store in memory keeps. -/
theorem ensures_serve (copies : database.Copies memory) (call : Call) :
    (Backend.serve call database).Ensures Choice.Admits fun outcome =>
      outcome.2.Copies (memory.after call) := by
  cases changes : call.changes with
  | true =>
    obtain ⟨_, database', _, database_eq, copies'⟩ := copies.serve_change changes
    rw [database_eq]
    exact copies'
  | false =>
    cases call with
    | sample run count =>
      apply (copies.ensures_sample run count).mono
      rintro _ ⟨_, rfl, _⟩
      exact copies
    | best run =>
      obtain ⟨_, database_eq, _⟩ := copies.serve_best run
      rw [database_eq]
      exact copies
    | _ => cases changes

end Database.Copies

/-- Serve calls one after another, and note the replies. -/
def serveAll {σ : Type} [Backend σ] :
    List Call → σ → Draw (List ((call : Call) × Except Error call.Reply) × σ)
  | [], store => pure ([], store)
  | call :: calls, store => do
    let (reply, store) ← Backend.serve call store
    let (replies, store) ← serveAll calls store
    pure (⟨call, reply⟩ :: replies, store)

/-- What is left of a store in memory when calls have been served. -/
def Memory.afterAll (calls : List Call) (memory : Memory) : Memory :=
  calls.foldl Memory.after memory

theorem Database.Copies.ensures_serveAll {database : Database} {memory : Memory}
    (copies : database.Copies memory) (calls : List Call) :
    (serveAll calls database).Ensures Choice.Admits fun outcome =>
      outcome.2.Copies (memory.afterAll calls) := by
  induction calls generalizing database memory with
  | nil => exact copies
  | cons call calls ih =>
    rw [serveAll]
    apply (copies.ensures_serve call).bind
    intro outcome copies'
    apply (ih copies').bind
    intro last copies''
    exact copies''

namespace Memory

variable {memory : Memory} {entry : Entry}

/-- Every member of a store that was empty has been published. -/
theorem exists_publish {calls : List Call} (mem : entry ∈ (memory.afterAll calls).members) :
    entry ∈ memory.members ∨
      ∃ members, Call.publish entry.run members ∈ calls ∧ entry.scored ∈ members := by
  induction calls generalizing memory with
  | nil => exact .inl mem
  | cons call calls ih =>
    rcases ih mem with old | ⟨members, later, scored_mem⟩
    · rcases mem_members_after old with older | ⟨members, rfl, scored_mem⟩
      · exact .inl older
      · exact .inr ⟨members, List.mem_cons_self, scored_mem⟩
    · exact .inr ⟨members, List.mem_cons_of_mem call later, scored_mem⟩

/-- Every result in a store that was empty has been logged. -/
theorem exists_logFinal {calls : List Call} (mem : entry ∈ (memory.afterAll calls).finals) :
    entry ∈ memory.finals ∨ Call.logFinal entry.run entry.scored ∈ calls := by
  induction calls generalizing memory with
  | nil => exact .inl mem
  | cons call calls ih =>
    rcases ih mem with old | later
    · rcases mem_finals_after old with older | rfl
      · exact .inl older
      · exact .inr List.mem_cons_self
    · exact .inr (List.mem_cons_of_mem call later)

end Memory

/-- The text of a program is read as the program, so no two programs share a text. And whatever
calls a database has served since it was made, a run that asks it for programs of others gets
programs that others have published, and who asks for the best gets one that has been published or
logged as a result.

What there is to get is told by a store in memory that has served the same calls. A sample takes no
row of it twice, and has as many rows as were asked for or all there are; a limit is a word with a
sign, and from `2 ^ 63` on there is none. There is a best one if there is one whose fitness is a
number. -/
theorem programs_survive_storage :
    (∀ program : Program, Program.decode? program.encode = some program) ∧
    Function.Injective Program.encode ∧
    ∀ calls : List Call, (serveAll calls Database.empty).Ensures Choice.Admits fun outcome =>
      (∀ run count, (Backend.serve (.sample run count) outcome.2).Ensures Choice.Admits
        fun answer => ∃ rows, answer.1 = .ok rows ∧
          (∀ row ∈ rows, ∃ owner members, owner ≠ run ∧ Call.publish owner members ∈ calls ∧
            ∃ published ∈ members, row.program = published.program) ∧
          (∃ picked : List Scored, picked.Subperm ((Memory.empty.afterAll calls).foreignTo run) ∧
            rows.map Scored.program = picked.map Scored.program) ∧
          (count < UInt64.size → count < 0x8000000000000000 ∨
              ((Memory.empty.afterAll calls).foreignTo run).length ≤ count →
            rows.length = min count ((Memory.empty.afterAll calls).foreignTo run).length)) ∧
      ∀ run, ∃ found, Backend.serve (.best run) outcome.2 = pure (.ok found, outcome.2) ∧
        (found = none ↔ (Memory.empty.afterAll calls).candidates run = []) ∧
        ∀ row ∈ found, (∃ owner members, Call.publish owner members ∈ calls ∧
            ∃ published ∈ members, row.program = published.program) ∨
          ∃ owner result, Call.logFinal owner result ∈ calls ∧ row.program = result.program := by
  refine ⟨Program.decode?_encode, Program.encode_injective, fun calls => ?_⟩
  apply (Database.copies_empty.ensures_serveAll calls).mono
  rintro ⟨_, database⟩ copies
  constructor
  · intro run count
    apply (copies.ensures_sample run count).mono
    rintro _ ⟨picked, rfl, subperm, length_eq⟩
    refine ⟨_, rfl, fun row row_mem => ?_, ⟨picked, subperm, List.map_map⟩, fun word room => ?_⟩
    · obtain ⟨scored, scored_mem, rfl⟩ := List.mem_map.mp row_mem
      obtain ⟨entry, entry_mem, foreign, rfl, _⟩ :=
        Memory.exists_of_mem_foreignTo (subperm.subset scored_mem)
      rcases Memory.exists_publish entry_mem with before | ⟨members, published, member⟩
      · cases before
      · exact ⟨entry.run, members, foreign, published, entry.scored, member, rfl⟩
    · rw [List.length_map, length_eq, Database.length_limited word room]
  · intro run
    obtain ⟨found, served, none_kept, highest⟩ := copies.serve_best run
    refine ⟨_, served, ⟨fun nothing => ?_, fun nothing => ?_⟩, fun row row_mem => ?_⟩
    · exact none_kept (Option.map_eq_none_iff.mp nothing)
    · cases found with
      | none => rfl
      | some best =>
        have best_mem := (highest best rfl).1
        rw [nothing] at best_mem
        cases best_mem
    · obtain ⟨best, best_found, rfl⟩ := Option.map_eq_some_iff.mp row_mem
      obtain ⟨entry, entry_mem, rfl⟩ := List.mem_map.mp (highest best best_found).1
      rcases List.mem_append.mp (List.mem_filter.mp entry_mem).1 with member | final
      · rcases Memory.exists_publish member with before | ⟨members, published, member⟩
        · cases before
        · exact .inl ⟨entry.run, members, published, entry.scored, member, rfl⟩
      · rcases Memory.exists_logFinal final with before | logged
        · cases before
        · exact .inr ⟨entry.run, entry.scored, logged, rfl⟩

end Store

end EvoSearch
