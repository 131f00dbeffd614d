/-
# What is reported, and what is kept of it

A report is made of two calls: one with a record for each slot, and one with a record for the
population. Both are made whatever becomes of them, and nothing else that a search does reports
anything, so the reports of a run can be read off its dialogue. A store that serves a call keeps its
records, and one that does not loses them; what other calls have brought is not touched by that.
-/

import EvoSearch.Proofs.Course
import EvoSearch.Proofs.Selection
import EvoSearch.Store.Database
import EvoSearch.Store.Memory

namespace EvoSearch

open Numeric Script Store

/-- Whether a call reports on a population or on its members. -/
def Store.Call.isReport : Call → Bool
  | logProgress _ => true
  | logDiversity _ => true
  | _ => false

/-- The call that a line of a dialogue reports with, and whether it was served. -/
def reported? : Surroundings.Line → Option (Call × Bool)
  | ⟨.store call, reply⟩ => if call.isReport then some (call, reply.isOk) else none
  | _ => none

/-- The calls that a dialogue reports with, in order, and whether they were served. -/
def reported (dialogue : List Surroundings.Line) : List (Call × Bool) :=
  dialogue.filterMap reported?

theorem reported_append (first rest : List Surroundings.Line) :
    reported (first ++ rest) = reported first ++ reported rest :=
  List.filterMap_append

theorem reported_cons (line : Surroundings.Line) (rest : List Surroundings.Line) :
    reported (line :: rest) = (reported? line).toList ++ reported rest :=
  reported_append [line] rest

section Silence

/-- A question that reports nothing. -/
def Effect.IsSilent : Effect → Prop
  | chance _ => True
  | store call => call.isReport = false
  | clock => True

variable {α : Type} {dialogue : List Surroundings.Line}

theorem reported?_eq_none {line : Surroundings.Line} (silent : line.1.IsSilent) :
    reported? line = none := by
  obtain ⟨effect, answer⟩ := line
  cases effect with
  | chance choice => rfl
  | clock => rfl
  | store call => exact if_neg (Bool.eq_false_iff.mp silent)

theorem reported_eq_nil {act : Act α} {post : α → Prop} {value : α}
    (silent : act.Respects Effect.IsSilent (fun _ _ => True) post)
    (yields : act.Yields dialogue value) : reported dialogue = [] :=
  List.filterMap_eq_nil_iff.mpr fun line mem =>
    reported?_eq_none (silent.asks_of_mem yields line mem)

theorem Draw.isSilent (draw : Draw α) :
    draw.act.Respects Effect.IsSilent (fun _ _ => True) fun _ => True :=
  Respects.lift (fun _ => trivial) fun _ _ _ => trivial

theorem MigrationConfig.migrate_isSilent (config : MigrationConfig) (population : Population) :
    (config.migrate population).Respects Effect.IsSilent (fun _ _ => True) fun _ => True := by
  rw [migrate]
  split
  · trivial
  · apply Draw.probability.isSilent.bind
    intro drawn _
    split
    · trivial
    · have silent : (config.exchange population).Respects Effect.IsSilent (fun _ _ => True)
          fun _ => True := exchange_respects rfl rfl rfl
      apply silent.bind
      rintro (error | migrants) _
      · trivial
      · apply respects_ofOption.bind
        exact fun _ _ => trivial

end Silence

/-- What is sent when a report is due. -/
structure Report where
  /-- a record for each slot -/
  diversity : List DiversityRecord
  diversityServed : Bool
  progress : ProgressRecord
  progressServed : Bool

namespace Report

/-- The calls of a report. -/
def calls (report : Report) : List (Call × Bool) :=
  [(.logDiversity report.diversity, report.diversityServed),
    (.logProgress report.progress, report.progressServed)]

/-- A report is about a search as it is: there is a record for each slot in the order of the slots,
and the one on the population tells of the best slot, and of the best so far. -/
structure Describes {γ μ ε : Type} (report : Report) (engine : Engine γ μ ε) : Prop where
  diversity_eq : report.diversity = engine.population.slots.toList.map fun slot =>
    .describe engine.config.migration.run engine.individuals slot.program slot.diversity
      slot.fitness
  individuals_eq : report.progress.individuals = engine.individuals
  best : ∃ slot index, engine.population.IsFirstBest slot index ∧
    report.progress.bestFitness = slot.fitness ∧ report.progress.bestDiversity = slot.diversity ∧
    report.progress.bestProgram = slot.program.toText
  bestOverall : ∃ best, engine.best = some best ∧ report.progress.bestOverall = best.fitness
  unbeaten : beats report.progress.bestFitness report.progress.bestOverall = false

end Report

namespace Engine

variable {γ μ ε : Type} {engine next : Engine γ μ ε} {dialogue : List Surroundings.Line}

/-- There is a best so far, and no slot beats it. -/
def IsNoted (engine : Engine γ μ ε) (best : Scored) : Prop :=
  engine.best = some best ∧
    ∀ slot, engine.population.Holds slot → beats slot.fitness best.fitness = false

/-- A report that is due is made, and the schedule says when. -/
theorem of_report_due {best : Scored} (noted : engine.IsNoted best)
    (due : engine.reporter.isDue engine.individuals = true)
    (yields : engine.report.Yields dialogue next) :
    ∃ report : Report, reported dialogue = report.calls ∧ report.Describes next ∧
      report.progress.bestOverall = best.fitness ∧
      next = { engine with reporter := engine.reporter.mark engine.individuals } := by
  rw [report, if_pos due] at yields
  obtain ⟨_, ⟨slot, index⟩, _, best_yields, from_diversity, rfl⟩ := yields_bind_iff.mp yields
  obtain ⟨rfl, found⟩ := yields_best best_yields
  obtain ⟨diversity_reply, _, rfl, from_clock⟩ := yields_ask_iff.mp from_diversity
  obtain ⟨time, _, rfl, from_progress⟩ := yields_ask_iff.mp from_clock
  obtain ⟨progress_reply, _, rfl, last⟩ := yields_ask_iff.mp from_progress
  obtain ⟨rfl, rfl⟩ := yields_pure_iff.mp last
  have first_best := Population.isFirstBest_of_best? found
  have overall : (engine.best.map Scored.fitness).getD nan = best.fitness := by
    rw [noted.1]
    rfl
  refine ⟨⟨_, diversity_reply.isOk, _, progress_reply.isOk⟩, rfl, ?_, overall, rfl⟩
  exact
    { diversity_eq := rfl
      individuals_eq := rfl
      best := ⟨slot, index, first_best, rfl, rfl, rfl⟩
      bestOverall := ⟨best, noted.1, overall⟩
      unbeaten := by
        change beats slot.fitness ((engine.best.map Scored.fitness).getD nan) = false
        rw [overall]
        exact noted.2 slot ⟨index, first_best.found⟩ }

/-- A report that is not due is not made. -/
theorem of_report_undue (undue : engine.reporter.isDue engine.individuals = false)
    (yields : engine.report.Yields dialogue next) : reported dialogue = [] ∧ next = engine := by
  rw [report, if_neg (Bool.eq_false_iff.mp undue)] at yields
  obtain ⟨rfl, rfl⟩ := yields_pure_iff.mp yields
  exact ⟨rfl, rfl⟩

end Engine

namespace Store

variable {σ δ : Type} [Backend σ]

/-- What a dialogue leaves of a store that answers its calls. A call may fail for reasons outside
the store, which stays as it is then. -/
inductive Leaves : σ → List Surroundings.Line → σ → Prop
  | nil (store : σ) : Leaves store [] store
  | chance {store last : σ} {rest : List Surroundings.Line} (choice : Choice) (answer : UInt64) :
      Leaves store rest last → Leaves store (⟨.chance choice, answer⟩ :: rest) last
  | clock {store last : σ} {rest : List Surroundings.Line} (time : Nat) :
      Leaves store rest last → Leaves store (⟨.clock, time⟩ :: rest) last
  | served {store mid last : σ} {call : Call} {reply : Except Error call.Reply}
      {talk : List Chance.Line} {rest : List Surroundings.Line} :
      (Backend.serve call store).Yields talk (reply, mid) → Leaves mid rest last →
      Leaves store (⟨.store call, reply⟩ :: rest) last
  | failed {store last : σ} {rest : List Surroundings.Line} (call : Call) (error : Error) :
      Leaves store rest last → Leaves store (⟨.store call, .error error⟩ :: rest) last

/-- The rows that a call adds to a table, if it is served. -/
def added (rowsOf : Call → List δ) (entry : Call × Bool) : List δ :=
  if entry.2 then rowsOf entry.1 else []

/-- A table takes up the rows of the reports that are served, and no others. -/
def Collects (table : σ → List δ) (rowsOf : Call → List δ) : Prop :=
  ∀ call store talk reply after, (Backend.serve call store).Yields talk (reply, after) →
    table after = table store ++
      (reported? ⟨.store call, reply⟩).toList.flatMap (added rowsOf)

theorem Collects.eq_append {table : σ → List δ} {rowsOf : Call → List δ} {store last : σ}
    {dialogue : List Surroundings.Line} (collects : Collects table rowsOf)
    (leaves : Leaves store dialogue last) :
    table last = table store ++ (reported dialogue).flatMap (added rowsOf) := by
  induction leaves with
  | nil store => exact (List.append_nil _).symm
  | chance choice answer _ ih => exact ih
  | clock time _ ih => exact ih
  | served serves _ ih =>
    rw [ih, collects _ _ _ _ _ serves, List.append_assoc, reported_cons, List.flatMap_append]
  | failed call error _ ih =>
    rw [ih, reported_cons, List.flatMap_append]
    cases call <;> rfl

/-- The reports on populations that a call brings. -/
def Call.progressRows : Call → List ProgressRecord
  | logProgress record => [record]
  | _ => []

/-- The reports on members that a call brings. -/
def Call.diversityRows : Call → List DiversityRecord
  | logDiversity records => records
  | _ => []

/-- It is enough to know that a call for a report adds its rows, and that others leave the table. -/
theorem collects_of_reports {table : σ → List δ} {rowsOf : Call → List δ}
    (others : ∀ call store talk reply after, call.isReport = false →
      (Backend.serve call store).Yields talk (reply, after) → table after = table store)
    (reports : ∀ call store talk reply after, call.isReport = true →
      (Backend.serve call store).Yields talk (reply, after) →
        table after = table store ++ added rowsOf (call, reply.isOk)) :
    Collects table rowsOf := by
  intro call store talk reply after serves
  cases kind : call.isReport with
  | false =>
    have none : reported? ⟨.store call, reply⟩ = none := reported?_eq_none kind
    rw [others call store talk reply after kind serves, none]
    exact (List.append_nil _).symm
  | true =>
    have some : reported? ⟨.store call, reply⟩ = some (call, reply.isOk) := if_pos kind
    rw [reports call store talk reply after kind serves, some]
    exact congrArg _ (List.append_nil _).symm

namespace Memory

variable {memory after : Memory} {call : Call} {talk : List Chance.Line}

theorem logs_eq_of_serves {reply : Except Error call.Reply} (silent : call.isReport = false)
    (serves : (Backend.serve call memory).Yields talk (reply, after)) :
    after.progress = memory.progress ∧ after.diversity = memory.diversity := by
  cases call with
  | sample run count =>
    obtain ⟨_, _, _, _, last, _⟩ := yields_bind_iff.mp serves
    cases (yields_pure_iff.mp last).2
    exact ⟨rfl, rfl⟩
  | logProgress record => cases silent
  | logDiversity records => cases silent
  | _ =>
    cases (yields_pure_iff.mp serves).2
    exact ⟨rfl, rfl⟩

theorem logs_eq_of_reports {reply : Except Error call.Reply} (report : call.isReport = true)
    (serves : (Backend.serve call memory).Yields talk (reply, after)) :
    after.progress = memory.progress ++ added Call.progressRows (call, reply.isOk) ∧
      after.diversity = memory.diversity ++ added Call.diversityRows (call, reply.isOk) := by
  cases call with
  | logProgress record =>
    cases (yields_pure_iff.mp serves).2
    exact ⟨rfl, (List.append_nil _).symm⟩
  | logDiversity records =>
    cases (yields_pure_iff.mp serves).2
    exact ⟨(List.append_nil _).symm, rfl⟩
  | _ => cases report

theorem collects_progress : Collects Memory.progress Call.progressRows :=
  collects_of_reports (fun _ _ _ _ _ silent serves => (logs_eq_of_serves silent serves).1)
    fun _ _ _ _ _ report serves => (logs_eq_of_reports report serves).1

theorem collects_diversity : Collects Memory.diversity Call.diversityRows :=
  collects_of_reports (fun _ _ _ _ _ silent serves => (logs_eq_of_serves silent serves).2)
    fun _ _ _ _ _ report serves => (logs_eq_of_reports report serves).2

end Memory

namespace Database

variable {database after : Database} {call : Call} {talk : List Chance.Line}

theorem logs_eq_of_serves {reply : Except Error call.Reply} (silent : call.isReport = false)
    (serves : (Backend.serve call database).Yields talk (reply, after)) :
    after.progress = database.progress ∧ after.diversity = database.diversity := by
  have stays {outcome : Except Error call.Reply × Database} {rest : List Chance.Line}
      (same : outcome.2.progress = database.progress ∧ outcome.2.diversity = database.diversity)
      (last : (pure outcome : Draw _).Yields rest (reply, after)) :
      after.progress = database.progress ∧ after.diversity = database.diversity := by
    cases (yields_pure_iff.mp last).2
    exact same
  cases call with
  | logProgress record => cases silent
  | logDiversity records => cases silent
  | sample run count =>
    simp only [Backend.serve] at serves
    split at serves
    · exact stays ⟨rfl, rfl⟩ serves
    · obtain ⟨_, _, _, _, last, _⟩ := yields_bind_iff.mp serves
      exact stays ⟨rfl, rfl⟩ last
  | best run =>
    simp only [Backend.serve] at serves
    split at serves
    · exact stays ⟨rfl, rfl⟩ serves
    · exact stays ⟨rfl, rfl⟩ serves
    · split at serves <;> exact stays ⟨rfl, rfl⟩ serves
  | _ =>
    simp only [Backend.serve] at serves
    split at serves <;> exact stays ⟨rfl, rfl⟩ serves

/-- The rows of a table, none if it is missing. -/
def rows {α : Type} (table : Option (List α)) : List α :=
  table.getD []

theorem rows_eq_of_reports {reply : Except Error call.Reply} (report : call.isReport = true)
    (serves : (Backend.serve call database).Yields talk (reply, after)) :
    rows after.progress = rows database.progress ++
        added (fun call => call.progressRows.map progressCells) (call, reply.isOk) ∧
      rows after.diversity = rows database.diversity ++
        added (fun call => call.diversityRows.map diversityCells) (call, reply.isOk) := by
  cases call with
  | logProgress record =>
    simp only [Backend.serve] at serves
    split at serves
    · cases (yields_pure_iff.mp serves).2
      exact ⟨(List.append_nil _).symm, (List.append_nil _).symm⟩
    · next table =>
      cases (yields_pure_iff.mp serves).2
      rw [table]
      exact ⟨rfl, (List.append_nil _).symm⟩
  | logDiversity records =>
    simp only [Backend.serve] at serves
    split at serves
    · cases (yields_pure_iff.mp serves).2
      exact ⟨(List.append_nil _).symm, (List.append_nil _).symm⟩
    · next table =>
      cases (yields_pure_iff.mp serves).2
      rw [table]
      exact ⟨(List.append_nil _).symm, rfl⟩
  | _ => cases report

theorem collects_progress : Collects (fun database : Database => rows database.progress)
    fun call => call.progressRows.map progressCells :=
  collects_of_reports
    (fun _ _ _ _ _ silent serves => congrArg rows (logs_eq_of_serves silent serves).1)
    fun _ _ _ _ _ report serves => (rows_eq_of_reports report serves).1

theorem collects_diversity : Collects (fun database : Database => rows database.diversity)
    fun call => call.diversityRows.map diversityCells :=
  collects_of_reports
    (fun _ _ _ _ _ silent serves => congrArg rows (logs_eq_of_serves silent serves).2)
    fun _ _ _ _ _ report serves => (rows_eq_of_reports report serves).2

end Database

end Store

namespace Report

/-- The records on populations that have been served. -/
def keptProgress (reports : List Report) : List ProgressRecord :=
  (reports.filter progressServed).map progress

/-- The records on members that have been served. -/
def keptDiversity (reports : List Report) : List DiversityRecord :=
  (reports.filter diversityServed).flatMap diversity

theorem flatMap_progressRows {δ : Type} (keep : ProgressRecord → δ) (reports : List Report) :
    (reports.flatMap calls).flatMap (added fun call => call.progressRows.map keep) =
      (keptProgress reports).map keep := by
  induction reports with
  | nil => rfl
  | cons report reports ih =>
    rw [List.flatMap_cons, List.flatMap_append, ih, keptProgress, keptProgress, List.filter_cons,
      calls]
    cases report.progressServed <;> simp [added, Call.progressRows]

theorem flatMap_diversityRows {δ : Type} (keep : DiversityRecord → δ) (reports : List Report) :
    (reports.flatMap calls).flatMap (added fun call => call.diversityRows.map keep) =
      (keptDiversity reports).map keep := by
  induction reports with
  | nil => rfl
  | cons report reports ih =>
    rw [List.flatMap_cons, List.flatMap_append, ih, keptDiversity, keptDiversity, List.filter_cons,
      calls]
    cases report.diversityServed <;> simp [added, Call.diversityRows]

/-- What a store has served of the reports in a dialogue is in its tables, behind all that was there
before, and nothing else is. -/
structure AreKept (reports : List Report) (dialogue : List Surroundings.Line) : Prop where
  memory : ∀ memory last : Memory, Leaves memory dialogue last →
    last.progress = memory.progress ++ keptProgress reports ∧
      last.diversity = memory.diversity ++ keptDiversity reports
  database : ∀ database last : Database, Leaves database dialogue last →
    Database.rows last.progress =
        Database.rows database.progress ++ (keptProgress reports).map progressCells ∧
      Database.rows last.diversity =
        Database.rows database.diversity ++ (keptDiversity reports).map diversityCells

theorem areKept_of_reported {reports : List Report} {dialogue : List Surroundings.Line}
    (calls_eq : reported dialogue = reports.flatMap calls) : AreKept reports dialogue where
  memory memory last leaves := by
    have progress := Memory.collects_progress.eq_append leaves
    have diversity := Memory.collects_diversity.eq_append leaves
    have progress_rows := flatMap_progressRows id reports
    have diversity_rows := flatMap_diversityRows id reports
    simp only [List.map_id] at progress_rows diversity_rows
    rw [calls_eq, progress_rows] at progress
    rw [calls_eq, diversity_rows] at diversity
    exact ⟨progress, diversity⟩
  database database last leaves := by
    have progress := Database.collects_progress.eq_append leaves
    have diversity := Database.collects_diversity.eq_append leaves
    rw [calls_eq, flatMap_progressRows] at progress
    rw [calls_eq, flatMap_diversityRows] at diversity
    exact ⟨progress, diversity⟩

end Report

end EvoSearch
