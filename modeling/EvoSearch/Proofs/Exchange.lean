/-
# Exchanges over one store

Several runs, told apart by their numbers, exchange members through one store in memory. An exchange
withdraws, publishes and fetches; between any two of its calls the others may go on with theirs, and
any call may fail.

At every moment the rows of a run are those that it has published last, in the order of the slots,
unless it has withdrawn them since, and then there are none. What is fetched are rows of other runs,
as they have been published last. The invariant behind it is that a run that is about to publish has
no rows: it has just withdrawn them, and nobody else publishes for it.

A given order of calls can be followed one by one, and is one of those that the results are about.
-/

import Mathlib.Logic.Function.Basic
import EvoSearch.Migration
import EvoSearch.Proofs.Sharing

namespace EvoSearch

open Script Store

/-- The members that a run has published last, by a dialogue with the newest line in front. -/
def lastPublished (run : Int64) : List Surroundings.Line → Option (List Scored)
  | [] => none
  | ⟨.store (.publish owner members), .ok _⟩ :: earlier =>
    if owner = run then some members else lastPublished run earlier
  | _ :: earlier => lastPublished run earlier

/-- Whether a run has withdrawn its rows since it has published last. -/
def withdrawnSince (run : Int64) : List Surroundings.Line → Bool
  | [] => false
  | ⟨.store (.publish owner _), .ok _⟩ :: earlier =>
    if owner = run then false else withdrawnSince run earlier
  | ⟨.store (.withdraw owner), .ok _⟩ :: earlier =>
    if owner = run then true else withdrawnSince run earlier
  | _ :: earlier => withdrawnSince run earlier

/-- The rows that a run should have, by the dialogue so far. -/
def standing (run : Int64) (history : List Surroundings.Line) : List Scored :=
  if withdrawnSince run history then [] else (lastPublished run history).getD []

theorem standing_withdraw {run owner : Int64} {history : List Surroundings.Line} :
    standing run (⟨.store (.withdraw owner), .ok ()⟩ :: history) =
      if owner = run then [] else standing run history := by
  by_cases own : owner = run
  · simp [standing, withdrawnSince, own]
  · simp [standing, withdrawnSince, lastPublished, own]

theorem standing_publish {run owner : Int64} {members : List Scored} {count : Nat}
    {history : List Surroundings.Line} :
    standing run (⟨.store (.publish owner members), .ok count⟩ :: history) =
      if owner = run then members else standing run history := by
  by_cases own : owner = run
  · simp [standing, withdrawnSince, lastPublished, own]
  · simp [standing, withdrawnSince, lastPublished, own]

namespace Answers

variable {memory memory' : Memory} {history : List Surroundings.Line} {run : Int64} {call : Call}
  {reply : Except Error call.Reply}

/-- A call changes the rows of its own run only. -/
theorem membersOf_eq (answers : Answers memory ⟨.store call, reply⟩ memory')
    (foreign : call.owner? ≠ some run) : memory'.membersOf run = memory.membersOf run := by
  cases call with
  | withdraw owner =>
    rcases answers.of_withdraw with ⟨_, _, rfl⟩ | ⟨_, rfl⟩
    · rfl
    · rw [Memory.membersOf_withdraw, if_neg fun same => foreign (congrArg some same.symm)]
  | publish owner members =>
    rcases answers.of_publish with ⟨_, _, rfl⟩ | ⟨_, rfl⟩
    · rfl
    · rw [Memory.membersOf_publish, if_neg fun same => foreign (congrArg some same.symm),
        List.append_nil]
  | sample owner count => rw [answers.of_sample.1]
  | _ => rw [Memory.membersOf, answers.members_eq_of_log rfl, Memory.membersOf]

/-- The rows of all runs stay as they should be, if a run that publishes has none. -/
theorem membersOf_eq_standing (rows : ∀ run, memory.membersOf run = standing run history)
    (answers : Answers memory ⟨.store call, reply⟩ memory')
    (clear : ∀ owner members, call = .publish owner members → memory.membersOf owner = []) :
    memory'.membersOf run = standing run (⟨.store call, reply⟩ :: history) := by
  cases call with
  | withdraw owner =>
    rcases answers.of_withdraw with ⟨_, rfl, rfl⟩ | ⟨rfl, rfl⟩
    · exact rows run
    · rw [Memory.membersOf_withdraw, standing_withdraw, rows]
      simp only [eq_comm]
  | publish owner members =>
    rcases answers.of_publish with ⟨_, rfl, rfl⟩ | ⟨rfl, rfl⟩
    · exact rows run
    · rw [Memory.membersOf_publish, standing_publish]
      by_cases own : owner = run
      · subst own
        rw [clear owner members rfl, if_pos rfl, if_pos rfl, List.nil_append]
      · rw [if_neg (Ne.symm own), if_neg own, List.append_nil, rows]
  | sample owner count =>
    rw [answers.of_sample.1]
    exact rows run
  | _ => exact (answers.membersOf_eq (by rintro ⟨⟩)).trans (rows run)

end Answers

namespace MigrationConfig

/-- What is left of an exchange when publishing has been answered. -/
def afterPublication (config : MigrationConfig) (population : Population) :
    Except Error Nat → Act (Except Error (List Scored))
  | .error error => .done (.error error)
  | .ok _ => .ask (.store (.sample config.run (population.size / 2))) .done

/-- What is left of an exchange when the withdrawal has been answered. -/
def afterWithdrawal (config : MigrationConfig) (population : Population) :
    Except Error Unit → Act (Except Error (List Scored))
  | .error error => .done (.error error)
  | .ok _ =>
    .ask (.store (.publish config.run population.members)) (config.afterPublication population)

theorem exchange_eq (config : MigrationConfig) (population : Population) :
    config.exchange population =
      .ask (.store (.withdraw config.run)) (config.afterWithdrawal population) := by
  rw [exchange]
  show Script.ask _ _ = Script.ask _ _
  congr 1
  funext withdrawal
  cases withdrawal with
  | error error => rfl
  | ok _ =>
    show Script.ask _ _ = Script.ask _ _
    congr 1
    funext publication
    cases publication with
    | error error => rfl
    | ok _ => rfl

end MigrationConfig

/-- Runs that exchange members over one store in memory. -/
structure Market (ι : Type) where
  memory : Memory
  /-- what is left of the exchange that a run has begun last -/
  pending : ι → Act (Except Error (List Scored))
  /-- the dialogues of all runs as they came about, with the newest line in front -/
  history : List Surroundings.Line

namespace Market

variable {ι : Type} {config : ι → MigrationConfig} {market next : Market ι}

/-- One run does something: it begins an exchange if it is not in one, or it goes on with its
exchange by one answer. -/
inductive Step (config : ι → MigrationConfig) (market next : Market ι) : Prop
  | begin (i : ι) (population : Population) {outcome : Except Error (List Scored)} :
      0 < population.size → market.pending i = .done outcome →
      next.pending i = (config i).exchange population →
      (∀ j, j ≠ i → next.pending j = market.pending j) →
      next.memory = market.memory → next.history = market.history → Step config market next
  | turn (i : ι) {query : Effect} {resume : query.Answer → Act (Except Error (List Scored))}
      {answer : query.Answer} :
      market.pending i = .ask query resume →
      Answers market.memory ⟨query, answer⟩ next.memory →
      next.pending i = resume answer →
      (∀ j, j ≠ i → next.pending j = market.pending j) →
      next.history = ⟨query, answer⟩ :: market.history → Step config market next

/-- What can come of an empty store and runs none of which is in an exchange. -/
inductive Reachable (config : ι → MigrationConfig) : Market ι → Prop
  | start {market : Market ι} : market.memory = .empty → market.history = [] →
      (∀ i, ∃ outcome, market.pending i = .done outcome) → Reachable config market
  | step {market next : Market ι} : Reachable config market → Step config market next →
      Reachable config next

/-- How far a run has come in its exchange. -/
inductive Stage (config : MigrationConfig) (memory : Memory) :
    Act (Except Error (List Scored)) → Prop
  | idle (outcome : Except Error (List Scored)) : Stage config memory (.done outcome)
  | withdrawing (population : Population) : 0 < population.size →
      Stage config memory (config.exchange population)
  | publishing (population : Population) : 0 < population.size →
      memory.membersOf config.run = [] →
      Stage config memory (config.afterWithdrawal population (.ok ()))
  | sampling (population : Population) (count : Nat) :
      Stage config memory (config.afterPublication population (.ok count))

/-- A stage is left by a call that is about the run's own rows. Before it publishes, a run has
none. -/
theorem Stage.turn {config : MigrationConfig} {memory memory' : Memory} {query : Effect}
    {resume : query.Answer → Act (Except Error (List Scored))} {answer : query.Answer}
    (stage : Stage config memory (.ask query resume))
    (answers : Answers memory ⟨query, answer⟩ memory') :
    ∃ (call : Call) (reply : Except Error call.Reply),
      (⟨query, answer⟩ : Surroundings.Line) = ⟨.store call, reply⟩ ∧
      call.owner? = some config.run ∧ Stage config memory' (resume answer) ∧
      ∀ owner members, call = .publish owner members →
        owner = config.run ∧ memory.membersOf config.run = [] ∧ members ≠ [] := by
  generalize pending_eq :
    (Script.ask query resume : Act (Except Error (List Scored))) = pending at stage
  cases stage with
  | idle outcome => cases pending_eq
  | withdrawing population occupied =>
    rw [MigrationConfig.exchange_eq] at pending_eq
    obtain ⟨rfl, resume_eq⟩ := Script.ask.inj pending_eq
    obtain rfl := eq_of_heq resume_eq
    refine ⟨.withdraw config.run, answer, rfl, rfl, ?_, by rintro _ _ ⟨⟩⟩
    rcases answers.of_withdraw with ⟨error, rfl, rfl⟩ | ⟨rfl, rfl⟩
    · exact .idle _
    · apply Stage.publishing population occupied
      rw [Memory.membersOf_withdraw, if_pos rfl]
  | publishing population occupied vacant =>
    rw [MigrationConfig.afterWithdrawal] at pending_eq
    obtain ⟨rfl, resume_eq⟩ := Script.ask.inj pending_eq
    obtain rfl := eq_of_heq resume_eq
    refine ⟨.publish config.run population.members, answer, rfl, rfl, ?_, ?_⟩
    · rcases answers.of_publish with ⟨error, rfl, rfl⟩ | ⟨rfl, rfl⟩
      · exact .idle _
      · exact .sampling population _
    · rintro owner members ⟨⟩
      refine ⟨rfl, vacant, ?_⟩
      intro none
      have length := congrArg List.length none
      rw [Population.members, List.length_map, Array.length_toList, List.length_nil] at length
      exact Nat.lt_irrefl 0 (length ▸ occupied)
  | sampling population count =>
    rw [MigrationConfig.afterPublication] at pending_eq
    obtain ⟨rfl, resume_eq⟩ := Script.ask.inj pending_eq
    obtain rfl := eq_of_heq resume_eq
    exact ⟨.sample config.run (population.size / 2), answer, rfl, rfl, .idle _, by rintro _ _ ⟨⟩⟩

/-- What others do to the store does not change the stage of a run. -/
theorem Stage.of_membersOf_eq {config : MigrationConfig} {memory memory' : Memory}
    {pending : Act (Except Error (List Scored))} (stage : Stage config memory pending)
    (same : memory'.membersOf config.run = memory.membersOf config.run) :
    Stage config memory' pending := by
  cases stage with
  | idle outcome => exact .idle outcome
  | withdrawing population occupied => exact .withdrawing population occupied
  | publishing population occupied vacant => exact .publishing population occupied (same ▸ vacant)
  | sampling population count => exact .sampling population count

/-- A row comes from what some other run has published last and not withdrawn since. -/
def IsForeign (run : Int64) (history : List Surroundings.Line) (row : Scored) : Prop :=
  ∃ other members, other ≠ run ∧ lastPublished other history = some members ∧
    withdrawnSince other history = false ∧ row ∈ members

/-- The invariant of all reachable markets. -/
structure Sound (config : ι → MigrationConfig) (market : Market ι) : Prop where
  rows : ∀ run, market.memory.membersOf run = standing run market.history
  occupied : ∀ run members, lastPublished run market.history = some members → members ≠ []
  stage : ∀ i, Stage (config i) market.memory (market.pending i)
  fetched : ∀ newer run count picked older,
    market.history = newer ++ ⟨.store (.sample run count), .ok picked⟩ :: older →
    ∀ row ∈ picked, IsForeign run older row

theorem isForeign_of_mem_foreignTo {run : Int64} {row : Scored}
    (rows : ∀ run, market.memory.membersOf run = standing run market.history)
    (row_mem : row ∈ market.memory.foreignTo run) : IsForeign run market.history row := by
  obtain ⟨entry, _, foreign, _, own⟩ := Memory.exists_of_mem_foreignTo row_mem
  rw [rows, standing] at own
  split at own
  · cases own
  · next kept =>
    cases published : lastPublished entry.run market.history with
    | none =>
      rw [published] at own
      cases own
    | some members =>
      rw [published] at own
      exact ⟨entry.run, members, foreign, published, Bool.not_eq_true _ ▸ kept, own⟩

theorem sound_of_start (memory_eq : market.memory = .empty) (history_eq : market.history = [])
    (idle : ∀ i, ∃ outcome, market.pending i = .done outcome) : Sound config market where
  rows run := by
    rw [memory_eq, history_eq]
    rfl
  occupied run members published := by
    rw [history_eq] at published
    cases published
  stage i := by
    obtain ⟨outcome, pending_eq⟩ := idle i
    rw [pending_eq]
    exact .idle outcome
  fetched newer run count picked older split := by
    rw [history_eq] at split
    exact absurd split.symm (List.append_ne_nil_of_right_ne_nil newer (List.cons_ne_nil _ _))

theorem Sound.begin (sound : Sound config market) {i : ι} {population : Population}
    (occupied : 0 < population.size)
    (pending_eq : next.pending i = (config i).exchange population)
    (others : ∀ j, j ≠ i → next.pending j = market.pending j)
    (memory_eq : next.memory = market.memory) (history_eq : next.history = market.history) :
    Sound config next where
  rows := by
    rw [memory_eq, history_eq]
    exact sound.rows
  occupied := by
    rw [history_eq]
    exact sound.occupied
  stage j := by
    rw [memory_eq]
    by_cases same : j = i
    · subst same
      rw [pending_eq]
      exact .withdrawing population occupied
    · rw [others j same]
      exact sound.stage j
  fetched := by
    rw [history_eq]
    exact sound.fetched

theorem lastPublished_cons {run : Int64} {call : Call} {reply : Except Error call.Reply}
    {history : List Surroundings.Line} {members : List Scored}
    (published : lastPublished run (⟨.store call, reply⟩ :: history) = some members) :
    call = .publish run members ∨ lastPublished run history = some members := by
  cases call with
  | publish owner fresh =>
    cases reply with
    | error error => exact .inr published
    | ok count =>
      rw [lastPublished] at published
      split at published
      · next own => exact .inl (by rw [own, Option.some.inj published])
      · exact .inr published
  | _ => exact .inr published

theorem Sound.turn (distinct : ∀ i j, (config i).run = (config j).run → i = j)
    (sound : Sound config market) {i : ι} {query : Effect}
    {resume : query.Answer → Act (Except Error (List Scored))} {answer : query.Answer}
    (pending_eq : market.pending i = .ask query resume)
    (answers : Answers market.memory ⟨query, answer⟩ next.memory)
    (next_eq : next.pending i = resume answer)
    (others : ∀ j, j ≠ i → next.pending j = market.pending j)
    (history_eq : next.history = ⟨query, answer⟩ :: market.history) : Sound config next := by
  have stage := sound.stage i
  rw [pending_eq] at stage
  obtain ⟨call, reply, line_eq, own, stage_next, clear⟩ := stage.turn answers
  rw [line_eq] at answers history_eq
  refine ⟨?_, ?_, ?_, ?_⟩
  · intro run
    rw [history_eq]
    refine answers.membersOf_eq_standing sound.rows fun owner members publishes => ?_
    obtain ⟨rfl, vacant, _⟩ := clear owner members publishes
    exact vacant
  · intro run members published
    rw [history_eq] at published
    rcases lastPublished_cons published with publishes | earlier
    · exact (clear run members publishes).2.2
    · exact sound.occupied run members earlier
  · intro j
    by_cases same : j = i
    · subst same
      rw [next_eq]
      exact stage_next
    · rw [others j same]
      refine (sound.stage j).of_membersOf_eq (answers.membersOf_eq ?_)
      rw [own]
      intro run_eq
      exact same (distinct j i (Option.some.inj run_eq).symm)
  · intro newer run count picked older split row row_mem
    rw [history_eq] at split
    cases newer with
    | nil =>
      obtain ⟨newest_eq, rfl⟩ := List.cons.inj split
      rw [newest_eq] at answers
      rcases answers.of_sample.2 with ⟨_, failed⟩ | ⟨rows, served, foreign⟩
      · cases failed
      · obtain rfl := Except.ok.inj served
        exact isForeign_of_mem_foreignTo sound.rows (foreign row row_mem)
    | cons newest newer =>
      exact sound.fetched newer run count picked older (List.cons.inj split).2 row row_mem

theorem Reachable.sound (distinct : ∀ i j, (config i).run = (config j).run → i = j)
    (reachable : Reachable config market) : Sound config market := by
  induction reachable with
  | start memory_eq history_eq idle => exact sound_of_start memory_eq history_eq idle
  | step _ step ih =>
    cases step with
    | begin i population occupied _ pending_eq others memory_eq history_eq =>
      exact ih.begin occupied pending_eq others memory_eq history_eq
    | turn i pending_eq answers next_eq others history_eq =>
      exact ih.turn distinct pending_eq answers next_eq others history_eq

/-- Among runs with numbers of their own, and whatever their calls meet with: the rows of a run are
none, or the members that it has published last; and they are those exactly if it has not withdrawn
since. A run that fetches gets nothing but what other runs have published last. -/
theorem rows_are_last_published (distinct : ∀ i j, (config i).run = (config j).run → i = j)
    (reachable : Reachable config market) :
    (∀ run, market.memory.membersOf run = [] ∨
      lastPublished run market.history = some (market.memory.membersOf run)) ∧
    (∀ run members, lastPublished run market.history = some members →
      (market.memory.membersOf run = members ↔ withdrawnSince run market.history = false)) ∧
    ∀ newer run count picked older,
      market.history = newer ++ ⟨.store (.sample run count), .ok picked⟩ :: older →
      ∀ row ∈ picked, IsForeign run older row := by
  have sound := reachable.sound distinct
  refine ⟨?_, ?_, sound.fetched⟩
  · intro run
    rw [sound.rows, standing]
    split
    · exact .inl rfl
    · cases published : lastPublished run market.history with
      | none => exact .inl rfl
      | some members => exact .inr rfl
  · intro run members published
    rw [sound.rows, standing, published]
    cases withdrawn : withdrawnSince run market.history with
    | false => simp
    | true => simpa using (sound.occupied run members published).symm

section Schedule

variable [DecidableEq ι]

/-- A run begins an exchange of a population, unless it is in one. -/
def begin (market : Market ι) (config : ι → MigrationConfig) (i : ι) (population : Population) :
    Market ι :=
  match market.pending i with
  | .done _ =>
    if 0 < population.size then
      { market with pending := Function.update market.pending i ((config i).exchange population) }
    else
      market
  | _ => market

/-- The call that a run has made is served, chance bringing zero. -/
def answered (market : Market ι) (i : ι) : Market ι :=
  match market.pending i with
  | .ask query resume =>
    match market.memory.reply? query with
    | some (answer, memory) =>
      { memory
        pending := Function.update market.pending i (resume answer)
        history := ⟨query, answer⟩ :: market.history }
    | none => market
  | _ => market

/-- The call that a run has made fails. -/
def refused (market : Market ι) (i : ι) (error : Error) : Market ι :=
  match market.pending i with
  | .ask (.store call) resume =>
    { market with
      pending := Function.update market.pending i (resume (.error error))
      history := ⟨.store call, .error error⟩ :: market.history }
  | _ => market

namespace Reachable

variable (reachable : Reachable config market) (i : ι)
include reachable

theorem begin (population : Population) :
    Reachable config (market.begin config i population) := by
  rw [Market.begin]
  split
  · next idle =>
    split
    · next occupied =>
      exact reachable.step (.begin i population occupied idle (Function.update_self ..)
        (fun j other => Function.update_of_ne other ..) rfl rfl)
    · exact reachable
  · exact reachable

theorem answered : Reachable config (market.answered i) := by
  rw [Market.answered]
  split
  · next asks =>
    split
    · next replied =>
      exact reachable.step (.turn i asks (answers_of_reply? replied) (Function.update_self ..)
        (fun j other => Function.update_of_ne other ..) rfl)
    · exact reachable
  · exact reachable

theorem refused (error : Error) : Reachable config (market.refused i error) := by
  rw [Market.refused]
  split
  · next call _ asks =>
    exact reachable.step (.turn i asks (.failed call error) (Function.update_self ..)
      (fun j other => Function.update_of_ne other ..) rfl)
  · exact reachable

end Reachable

end Schedule

/-- Two runs. -/
def pairRuns (second : Bool) : MigrationConfig where
  probability := 1
  run := if second then 1 else 0
  splice := .replaceWorst

/-- Two runs that have nothing to do with each other yet. -/
def idlePair : Market Bool where
  memory := .empty
  pending _ := .done (.ok [])
  history := []

/-- Two slots, each of them of fitness one. -/
def worthy : Population :=
  ⟨Array.replicate 2 (.fresh { program := .empty, fitness := 1 } none)⟩

/-- An exchange of the second run, with an exchange of the first one between its calls, which fails
when it comes to the fetch. The first run then withdraws once more, and fails to publish. -/
def busyPair : Market Bool :=
  let met := (((idlePair.begin pairRuns true (.ofSize 2)).answered true).begin pairRuns false
    worthy).answered false
  let fetched := ((met.answered true).answered false).answered true
  (((fetched.refused false .poisoned).begin pairRuns false worthy).answered false).refused false
    .poisoned

theorem reachable_busyPair : Reachable pairRuns busyPair := by
  have idle : Reachable pairRuns idlePair := .start rfl rfl fun _ => ⟨.ok [], rfl⟩
  have met := (((idle.begin true (.ofSize 2)).answered true).begin false worthy).answered false
  have fetched := ((met.answered true).answered false).answered true
  exact (((fetched.refused false .poisoned).begin false worthy).answered false).refused false
    .poisoned

/-- The second run has fetched a row that the first one had published in the meantime. Its own rows
are still there, and those of the first one are gone. -/
theorem rows_are_last_published_of_pair : ∃ (newer older : List Surroundings.Line)
    (row : Scored),
    Reachable pairRuns busyPair ∧
    busyPair.history = newer ++ ⟨.store (.sample 1 1), .ok [row]⟩ :: older ∧
    row.fitness = 1 ∧ IsForeign 1 older row ∧
    (busyPair.memory.membersOf 1 = (Population.ofSize 2).members ↔
      withdrawnSince 1 busyPair.history = false) ∧
    withdrawnSince 1 busyPair.history = false ∧
    (busyPair.memory.membersOf 0 = worthy.members ↔
      withdrawnSince 0 busyPair.history = false) ∧
    withdrawnSince 0 busyPair.history = true := by
  have distinct (i j : Bool) (same : (pairRuns i).run = (pairRuns j).run) : i = j := by
    revert same
    cases i <;> cases j <;> decide
  obtain ⟨_, rows, fetched⟩ := rows_are_last_published distinct reachable_busyPair
  let row : Scored := { program := .empty, fitness := 1 }
  have history : busyPair.history =
      [⟨.store (.publish 0 worthy.members), .error .poisoned⟩, ⟨.store (.withdraw 0), .ok ()⟩,
        ⟨.store (.sample 0 1), .error .poisoned⟩] ++ ⟨.store (.sample 1 1), .ok [row]⟩ ::
      [⟨.store (.publish 0 worthy.members), .ok (2 : Nat)⟩,
        ⟨.store (.publish 1 (Population.ofSize 2).members), .ok (2 : Nat)⟩,
        ⟨.store (.withdraw 0), .ok ()⟩, ⟨.store (.withdraw 1), .ok ()⟩] := rfl
  refine ⟨_, _, row, reachable_busyPair, history, rfl, ?_, rows 1 _ rfl, rfl, rows 0 _ rfl, rfl⟩
  exact fetched _ 1 1 [row] _ history row List.mem_cons_self

end Market

end EvoSearch
