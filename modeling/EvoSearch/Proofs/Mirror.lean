/-
# Runs that mirror one another

Two scripts mirror one another if, from states that are alike, the second one comes to an end
wherever the first one does, in a state that is alike again and with a related result. Unlike
scripts in lockstep they may put different questions to their surroundings, as long as these answer
them in related ways and stay alike.

The surroundings here are a stream of words and a store in memory, at a clock that may show
anything. Stores are alike if they differ at most in the times that are noted in reports.
-/

import EvoSearch.Proofs.Generation
import EvoSearch.Proofs.Pairing
import EvoSearch.Store.Memory

namespace EvoSearch

open Script EvoSearch.Random

namespace Script

variable {I J : Interface} {α β γ δ σ : Type}

section Mirrors

variable (answers : (q : I.Query) → I.Answer q → σ → σ → Prop) (like : σ → σ → Prop)

/-- Wherever the first script ends, the second one comes to an end from all states that are like the
one that the first was run from, and does so with a related result and in a state that is alike. -/
def Mirrors (post : α → β → Prop) (script : Script I α) (other : Script I β) : Prop :=
  ∀ state twin value last, like state twin → script.EndsIn answers state value last →
    other.EnsuresIn answers twin fun result after => post value result ∧ like last after

/-- Asked in states that are alike, two questions get related answers, and the states stay alike. -/
def Echoes (q r : I.Query) (agree : I.Answer q → I.Answer r → Prop) : Prop :=
  ∀ state twin answer after, like state twin → answers q answer state after →
    (∃ given last, answers r given twin last) ∧
      ∀ given last, answers r given twin last → agree answer given ∧ like after last

/-- Asked in states that are alike, a question gets the same answer. -/
abbrev Repeats (q : I.Query) : Prop :=
  Echoes answers like q q fun answer given => given = answer

/-- From states that are alike a script ends with the same result, and in states that are alike. -/
abbrev Steady (script : Script I α) : Prop :=
  Mirrors answers like (fun value result => result = value) script script

variable {answers like} {mid : α → β → Prop} {post : γ → δ → Prop} {script : Script I α}
  {other : Script I β}

theorem Echoes.mono {q r : I.Query} {agree weaker : I.Answer q → I.Answer r → Prop}
    (echoes : Echoes answers like q r agree)
    (weaken : ∀ answer given, agree answer given → weaker answer given) :
    Echoes answers like q r weaker := by
  intro state twin answer after alike answered
  obtain ⟨answerable, agrees⟩ := echoes state twin answer after alike answered
  refine ⟨answerable, fun given last given_answered => ?_⟩
  obtain ⟨agree, still_alike⟩ := agrees given last given_answered
  exact ⟨weaken answer given agree, still_alike⟩

theorem mirrors_done {value : α} {result : β} (holds : mid value result) :
    Mirrors answers like mid (.done value) (.done result) := by
  rintro state twin _ _ alike ⟨⟩
  exact ⟨holds, alike⟩

theorem mirrors_ofOption {value : Option α} {result : Option β}
    (related : Option.Rel mid value result) (reason : Fault) :
    Mirrors answers like mid (ofOption reason value) (ofOption reason result) := by
  cases related with
  | none => rintro _ _ _ _ _ ⟨⟩
  | some holds => exact mirrors_done holds

theorem mirrors_ask {q r : I.Query} {agree : I.Answer q → I.Answer r → Prop}
    {next : I.Answer q → Script I α} {follow : I.Answer r → Script I β}
    (echoes : Echoes answers like q r agree)
    (rest : ∀ answer given, agree answer given →
      Mirrors answers like mid (next answer) (follow given)) :
    Mirrors answers like mid (.ask q next) (.ask r follow) := by
  intro state twin value last alike ends
  obtain ⟨answer, after, answered, later⟩ := exists_of_endsIn_ask ends
  obtain ⟨answerable, agrees⟩ := echoes state twin answer after alike answered
  refine ⟨answerable, fun given behind given_answered => ?_⟩
  obtain ⟨agree, still_alike⟩ := agrees given behind given_answered
  exact rest answer given agree after behind value last still_alike later

theorem Mirrors.bind {f : α → Script I γ} {g : β → Script I δ}
    (front : Mirrors answers like mid script other)
    (back : ∀ value result, mid value result → Mirrors answers like post (f value) (g result)) :
    Mirrors answers like post (script >>= f) (other >>= g) := by
  intro state twin value last alike ends
  obtain ⟨result, between, first, second⟩ := endsIn_bind_iff.mp ends
  apply (front state twin result between alike first).bind
  rintro counterpart after ⟨holds, still_alike⟩
  exact back result counterpart holds between after value last still_alike second

theorem Steady.bind {f : α → Script I γ} (front : Steady answers like script)
    (back : ∀ value, Steady answers like (f value)) : Steady answers like (script >>= f) := by
  refine Mirrors.bind front ?_
  rintro _ value rfl
  exact back value

theorem steady_ofOption (reason : Fault) (value : Option α) :
    Steady answers like (ofOption reason value : Script I α) := by
  cases value with
  | none => rintro _ _ _ _ _ ⟨⟩
  | some value => exact mirrors_done rfl

/-- A script is steady if all that it asks is answered in the same way. -/
theorem steady_of_respects {asks : I.Query → Prop}
    (respects : script.Respects asks (fun _ _ => True) fun _ => True)
    (repeats : ∀ q, asks q → Repeats answers like q) : Steady answers like script := by
  induction script with
  | done value => exact mirrors_done rfl
  | fault reason => rintro _ _ _ _ _ ⟨⟩
  | ask q next ih =>
    apply mirrors_ask (repeats q respects.1)
    rintro _ answer rfl
    exact ih answer (respects.2 answer trivial)

end Mirrors

end Script

namespace Act

variable {σ : Type} (answers : (effect : Effect) → effect.Answer → σ → σ → Prop)
  (like : σ → σ → Prop)

/-- Asked in states that are alike, two questions of a running search get related answers. -/
abbrev Echoes (q r : Effect) (agree : q.Answer → r.Answer → Prop) : Prop :=
  @Script.Echoes Surroundings σ answers like q r agree

/-- Asked in states that are alike, a question of a running search gets the same answer. -/
abbrev Repeats (q : Effect) : Prop :=
  @Script.Repeats Surroundings σ answers like q

end Act

/-- Paired draws mirror one another where chance is the same. -/
theorem Draw.Paired.mirrors {α β σ : Type}
    {answers : (effect : Effect) → effect.Answer → σ → σ → Prop} {like : σ → σ → Prop}
    {post : α → β → Prop} {draw : Draw α} {other : Draw β} (paired : Draw.Paired post draw other)
    (repeats : ∀ choice, Act.Repeats answers like (.chance choice)) :
    Mirrors answers like post draw.act other.act := by
  induction paired with
  | done holds => exact mirrors_done holds
  | stuck reason other => rintro _ _ _ _ _ ⟨⟩
  | both _ _ ih =>
    apply mirrors_ask (repeats _)
    rintro _ answer rfl
    exact ih answer
  | first apart => exact (apart trivial).elim
  | second apart => exact (apart trivial).elim

theorem Draw.steady_act {α σ : Type} {answers : (effect : Effect) → effect.Answer → σ → σ → Prop}
    {like : σ → σ → Prop} (repeats : ∀ choice, Act.Repeats answers like (.chance choice))
    (draw : Draw α) : Steady answers like draw.act :=
  draw.paired_self.mirrors repeats

/-- A question whose answer, and what it leaves behind, cannot depend on the time. -/
def Effect.IsTimeless : Effect → Prop
  | chance _ => True
  | store (.logProgress _) => False
  | store _ => True
  | clock => False

theorem MigrationConfig.exchange_isTimeless (config : MigrationConfig) (population : Population) :
    (config.exchange population).Respects Effect.IsTimeless (fun _ _ => True) fun _ => True :=
  exchange_respects trivial trivial trivial

/-- Two reports on a population differ in the time at most. -/
def ProgressRecord.Like (record other : ProgressRecord) : Prop :=
  other = { record with elapsedSeconds := other.elapsedSeconds }

theorem ProgressRecord.Like.symm {record other : ProgressRecord} (alike : record.Like other) :
    other.Like record := by
  rw [Like, alike]

namespace Store.Memory

/-- Two stores differ at most in the times of their reports. -/
structure Like (memory twin : Memory) : Prop where
  members_eq : twin.members = memory.members
  progress : List.Forall₂ ProgressRecord.Like memory.progress twin.progress
  diversity_eq : twin.diversity = memory.diversity
  finals_eq : twin.finals = memory.finals

variable {memory twin : Memory}

/-- Stores that are alike answer a call in the same way, and stay alike. -/
theorem Like.paired_serve (alike : memory.Like twin) (call : Call)
    (timeless : (Effect.store call).IsTimeless) :
    Draw.Paired (fun outcome other => other.1 = outcome.1 ∧ outcome.2.Like other.2)
      (Backend.serve call memory) (Backend.serve call twin) := by
  obtain ⟨members_eq, progress, diversity_eq, finals_eq⟩ := alike
  cases call with
  | withdraw run =>
    exact .done ⟨rfl, congrArg (List.filter _) members_eq, progress, diversity_eq, finals_eq⟩
  | publish run members =>
    exact .done ⟨rfl, congrArg (· ++ _) members_eq, progress, diversity_eq, finals_eq⟩
  | sample run count =>
    have foreign_eq : twin.foreignTo run = memory.foreignTo run := by
      rw [foreignTo, members_eq, foreignTo]
    change Draw.Paired _ (Draw.sample (memory.foreignTo run) count >>= _)
      (Draw.sample (twin.foreignTo run) count >>= _)
    rw [foreign_eq]
    apply (Draw.paired_self _).bind
    rintro rows _ rfl
    exact .done ⟨rfl, members_eq, progress, diversity_eq, finals_eq⟩
  | logProgress record => exact timeless.elim
  | logDiversity records =>
    exact .done ⟨rfl, members_eq, progress, congrArg (· ++ _) diversity_eq, finals_eq⟩
  | logFinal run result =>
    exact .done ⟨rfl, members_eq, progress, diversity_eq, congrArg (· ++ _) finals_eq⟩
  | best run =>
    refine .done ⟨?_, members_eq, progress, diversity_eq, finals_eq⟩
    rw [candidates, members_eq, finals_eq, candidates]

theorem Like.logProgress (alike : memory.Like twin) {record other : ProgressRecord}
    (records : record.Like other) :
    Like { memory with progress := memory.progress ++ [record] }
      { twin with progress := twin.progress ++ [other] } where
  members_eq := alike.members_eq
  progress := List.rel_append alike.progress (.cons records .nil)
  diversity_eq := alike.diversity_eq
  finals_eq := alike.finals_eq

end Store.Memory

namespace Act

open Store

variable {α β ρ : Type} [WordStream ρ] {patience : Nat}

/-- A stage answers as it does at some time, and no call to its store fails. -/
def Hosts {σ : Type} [Backend σ] (patience : Nat) (effect : Effect) (answer : effect.Answer)
    (stage after : Stage σ ρ) : Prop :=
  ∃ time, serve patience .none time effect stage = .ok (answer, after)

/-- Two stages differ at most in the times of the reports in the store. -/
structure Stage.Like (stage twin : Stage Memory ρ) : Prop where
  words_eq : twin.words = stage.words
  store_words_eq : twin.store.words = stage.store.words
  tables : stage.store.tables.Like twin.store.tables

omit [WordStream ρ] in
theorem Stage.Like.refl (stage : Stage Memory ρ) : stage.Like stage where
  words_eq := rfl
  store_words_eq := rfl
  tables := ⟨rfl, List.forall₂_same.mpr fun _ _ => rfl, rfl, rfl⟩

omit [WordStream ρ] in
theorem Stage.Like.symm {stage twin : Stage Memory ρ} (alike : stage.Like twin) :
    twin.Like stage where
  words_eq := alike.words_eq.symm
  store_words_eq := alike.store_words_eq.symm
  tables :=
    { members_eq := alike.tables.members_eq.symm
      progress := (alike.tables.progress.imp fun _ _ records => records.symm).flip
      diversity_eq := alike.tables.diversity_eq.symm
      finals_eq := alike.tables.finals_eq.symm }

/-- A look at the clock leaves a stage as it is. -/
theorem hosts_clock_iff {σ : Type} [Backend σ] {time : Nat} {stage after : Stage σ ρ} :
    Hosts patience .clock time stage after ↔ after = stage := by
  constructor
  · rintro ⟨_, served⟩
    exact (Prod.mk.inj (Except.ok.inj served)).2.symm
  · rintro rfl
    exact ⟨time, rfl⟩

theorem repeats_chance (choice : Choice) :
    Repeats (Hosts patience) (Stage.Like (ρ := ρ)) (.chance choice) := by
  rintro stage twin answer after ⟨words_eq, store_words_eq, tables⟩ ⟨time, served⟩
  rw [serve] at served
  split at served
  · cases served
  · next number words drawn =>
    cases served
    rw [← words_eq] at drawn
    constructor
    · refine ⟨answer, { twin with words }, time, ?_⟩
      rw [serve, drawn]
    · rintro given last ⟨_, given_served⟩
      rw [serve, drawn] at given_served
      cases given_served
      exact ⟨rfl, rfl, store_words_eq, tables⟩

theorem echoes_clock :
    Echoes (Hosts patience) (Stage.Like (ρ := ρ)) .clock .clock fun _ _ => True := by
  rintro stage twin answer after alike ⟨_, served⟩
  cases served
  refine ⟨⟨answer, twin, answer, rfl⟩, ?_⟩
  rintro given last ⟨_, given_served⟩
  cases given_served
  exact ⟨trivial, alike⟩

/-- Calls that the two stores answer in the same way are answered in the same way on stage. -/
theorem echoes_of_paired {call other : Call} {agree : Except Error call.Reply →
      Except Error other.Reply → Prop}
    (paired : ∀ memory twin : Memory, memory.Like twin → Draw.Paired
      (fun outcome result => agree outcome.1 result.1 ∧ outcome.2.Like result.2)
      (Backend.serve call memory) (Backend.serve other twin)) :
    Echoes (Hosts patience) (Stage.Like (ρ := ρ)) (.store call) (.store other) agree := by
  rintro stage twin answer after ⟨words_eq, store_words_eq, tables⟩ ⟨time, served⟩
  simp only [serve, Session.serve, Outage.none] at served
  split at served
  · cases served
  · next reply store replied =>
    cases served
    split at replied
    · cases replied
    · next words drawn =>
      cases replied
      rw [← store_words_eq] at drawn
      obtain ⟨⟨result, memory⟩, result_drawn, agrees, alike⟩ := (paired _ _ tables).run drawn
      constructor
      · refine ⟨result, { twin with store := { tables := memory, words } }, time, ?_⟩
        simp only [serve, Session.serve, Outage.none, result_drawn]
      · rintro given last ⟨_, given_served⟩
        simp only [serve, Session.serve, Outage.none, result_drawn] at given_served
        cases given_served
        exact ⟨agrees, words_eq, rfl, alike⟩

theorem repeats_of_isTimeless {effect : Effect} (timeless : effect.IsTimeless) :
    Repeats (Hosts patience) (Stage.Like (ρ := ρ)) effect := by
  cases effect with
  | chance choice => exact repeats_chance choice
  | store call => exact echoes_of_paired fun _ _ alike => alike.paired_serve call timeless
  | clock => exact timeless.elim

theorem echoes_logProgress {record other : ProgressRecord} (records : record.Like other) :
    Echoes (Hosts patience) (Stage.Like (ρ := ρ)) (.store (.logProgress record))
      (.store (.logProgress other)) fun answer given => given = answer :=
  echoes_of_paired fun _ _ alike => .done ⟨rfl, alike.logProgress records⟩

/-- What runs at a standing clock also runs on the stage. -/
theorem endsIn_hosts_of_run {σ : Type} [Backend σ] {act : Act α} {time : Nat}
    {stage after : Stage σ ρ} {value : α}
    (run : act.run patience .none time stage = .ok (value, after)) :
    act.EndsIn (Hosts patience) stage value after := by
  have faithful (effect : Effect) (before : Stage σ ρ) (answer : effect.Answer)
      (after : Stage σ ρ) (served : serve patience .none time effect before = .ok (answer, after)) :
      Hosts patience effect answer before after := ⟨time, served⟩
  exact Script.endsIn_of_run faithful run

/-- What can be seen of an outcome is seen of a value that there is. -/
theorem exists_of_any_toOption {outcome : Except Fault α} {seen : α → Bool}
    (any : outcome.toOption.any seen = true) :
    ∃ value, outcome = .ok value ∧ seen value = true := by
  cases outcome with
  | error reason => cases any
  | ok value => exact ⟨value, rfl, any⟩

/-- A stage on which chance always brings zero, with a store that holds a member of another run. -/
def sharedStage : Stage Memory Tape where
  words := ⟨fun _ => 0, 0⟩
  store :=
    { tables := { Memory.empty with
        members := [{ run := 1, scored := { program := .empty, fitness := 1 } }] }
      words := ⟨fun _ => 0, 0⟩ }

end Act

end EvoSearch
