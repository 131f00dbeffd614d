/-
# A store in memory that several runs share

A call is served as a whole, or it fails and leaves the store as it was. What a call does to the
rows of a run is told by the owner of the call: withdrawing and publishing touch the rows of their
own run only, and a sample is made up of rows of other runs, whatever the way to draw it.

Where nothing fails and chance always brings zero, there is one answer to every question.
-/

import EvoSearch.Act
import EvoSearch.Proofs.Dialogue
import EvoSearch.Random.Sample
import EvoSearch.Store.Memory

namespace EvoSearch

open Script Store

namespace Draw

variable {α : Type} {rows picked : List α} {dialogue : List Chance.Line}

theorem mem_of_mem_rowsAt {positions : List Nat} {row : α} (row_mem : row ∈ rowsAt rows positions) :
    row ∈ rows := by
  rw [rowsAt, List.mem_filterMap] at row_mem
  obtain ⟨position, _, found⟩ := row_mem
  rw [List.getElem?_toArray] at found
  exact List.mem_of_getElem? found

theorem mem_of_mem_shuffleFront {count : Nat}
    (yields : (shuffleFront count rows).Yields dialogue picked) (row : α) (row_mem : row ∈ picked) :
    row ∈ rows := by
  induction count generalizing rows picked dialogue with
  | zero =>
    obtain ⟨_, rfl⟩ := yields_pure_iff.mp yields
    cases row_mem
  | succ count ih =>
    cases rows with
    | nil =>
      obtain ⟨_, rfl⟩ := yields_pure_iff.mp yields
      cases row_mem
    | cons head rest =>
      rw [shuffleFront] at yields
      obtain ⟨_, offset, _, _, from_offset, _⟩ := yields_bind_iff.mp yields
      split at from_offset
      · obtain ⟨_, others, _, others_yields, last, _⟩ := yields_bind_iff.mp from_offset
        obtain ⟨_, rfl⟩ := yields_pure_iff.mp last
        rcases List.mem_cons.mp row_mem with rfl | behind
        · exact List.mem_cons_self
        · exact List.mem_cons_of_mem head (ih others_yields behind)
      · next position _ =>
        obtain ⟨_, chosen, _, chosen_yields, from_chosen, _⟩ := yields_bind_iff.mp from_offset
        obtain ⟨_, found⟩ := yields_ofOption_iff.mp chosen_yields
        obtain ⟨_, others, _, others_yields, last, _⟩ := yields_bind_iff.mp from_chosen
        obtain ⟨_, rfl⟩ := yields_pure_iff.mp last
        rcases List.mem_cons.mp row_mem with rfl | behind
        · exact List.mem_cons_of_mem head (List.mem_of_getElem? found)
        · rcases List.mem_or_eq_of_mem_set (ih others_yields behind) with inside | rfl
          · exact List.mem_cons_of_mem head inside
          · exact List.mem_cons_self

/-- A sample is made up of the rows that it is drawn from. -/
theorem mem_of_mem_sample {count : Nat} (yields : (sample rows count).Yields dialogue picked)
    (row : α) (row_mem : row ∈ picked) : row ∈ rows := by
  rw [sample] at yields
  split at yields
  · obtain ⟨_, positions, _, _, last, _⟩ := yields_bind_iff.mp yields
    obtain ⟨_, rfl⟩ := yields_pure_iff.mp last
    exact mem_of_mem_rowsAt row_mem
  · obtain ⟨_, positions, _, _, from_shuffle, _⟩ := yields_bind_iff.mp yields
    obtain ⟨_, shuffled, _, _, last, _⟩ := yields_bind_iff.mp from_shuffle
    obtain ⟨_, rfl⟩ := yields_pure_iff.mp last
    exact mem_of_mem_rowsAt row_mem
  · exact mem_of_mem_shuffleFront yields row row_mem
  · obtain ⟨_, positions, _, _, last, _⟩ := yields_bind_iff.mp yields
    obtain ⟨_, rfl⟩ := yields_pure_iff.mp last
    exact mem_of_mem_rowsAt row_mem

end Draw

/-- The run whose published rows a call is about. -/
def Store.Call.owner? : Call → Option Int64
  | withdraw run => some run
  | publish run _ => some run
  | sample run _ => some run
  | _ => none

/-- What a call leaves of a store in memory when it is served. -/
def Store.Memory.after (memory : Memory) : Call → Memory
  | .withdraw run =>
    { memory with members := memory.members.filter fun entry => entry.run != run }
  | .publish run members =>
    { memory with members := memory.members ++ members.map fun scored => { run, scored } }
  | .logProgress record => { memory with progress := memory.progress ++ [record] }
  | .logDiversity records => { memory with diversity := memory.diversity ++ records }
  | .logFinal run result => { memory with finals := memory.finals ++ [{ run, scored := result }] }
  | _ => memory

namespace Store.Memory

variable {memory : Memory} {entry : Entry} {call : Call}

/-- A published row has been there before, or it has just been published. -/
theorem mem_members_after (mem : entry ∈ (memory.after call).members) :
    entry ∈ memory.members ∨
      ∃ members, call = .publish entry.run members ∧ entry.scored ∈ members := by
  cases call with
  | withdraw run => exact .inl (List.mem_filter.mp mem).1
  | publish run members =>
    rcases List.mem_append.mp mem with old | new
    · exact .inl old
    · obtain ⟨scored, scored_mem, rfl⟩ := List.mem_map.mp new
      exact .inr ⟨members, rfl, scored_mem⟩
  | _ => exact .inl mem

/-- A final row has been there before, or it has just been logged. -/
theorem mem_finals_after (mem : entry ∈ (memory.after call).finals) :
    entry ∈ memory.finals ∨ call = .logFinal entry.run entry.scored := by
  cases call with
  | logFinal run result =>
    rcases List.mem_append.mp mem with old | new
    · exact .inl old
    · rw [List.mem_singleton.mp new]
      exact .inr rfl
  | _ => exact .inl mem

end Store.Memory

/-- What becomes of a store in memory by a question of an act and its answer. Chance and the clock
answer as they like; a call is served, or it fails for any reason. -/
inductive Answers (memory : Memory) : Surroundings.Line → Memory → Prop
  | chance (choice : Choice) (answer : UInt64) : Answers memory ⟨.chance choice, answer⟩ memory
  | clock (time : Nat) : Answers memory ⟨.clock, time⟩ memory
  | served {call : Call} {reply : Except Error call.Reply} {memory' : Memory}
      {dialogue : List Chance.Line} :
      (Backend.serve call memory).Yields dialogue (reply, memory') →
      Answers memory ⟨.store call, reply⟩ memory'
  | failed (call : Call) (error : Error) : Answers memory ⟨.store call, .error error⟩ memory

namespace Answers

variable {memory memory' : Memory} {run other : Int64} {members : List Scored} {count : Nat}

/-- A call that leaves nothing to chance does what it does, or fails and does nothing. -/
theorem of_serve_eq {call : Call} {reply : Except Error call.Reply} {result : call.Reply}
    {next : Memory} (serve_eq : Backend.serve call memory = pure (.ok result, next))
    (answers : Answers memory ⟨.store call, reply⟩ memory') :
    (∃ error, reply = .error error ∧ memory' = memory) ∨ reply = .ok result ∧ memory' = next := by
  cases answers with
  | served yields =>
    rw [serve_eq] at yields
    obtain ⟨_, same⟩ := yields_pure_iff.mp yields
    obtain ⟨rfl, rfl⟩ := Prod.mk.inj same
    exact .inr ⟨rfl, rfl⟩
  | failed _ error => exact .inl ⟨error, rfl, rfl⟩

/-- A withdrawal takes the rows of its run away, and no others. -/
theorem of_withdraw {reply : Except Error Unit}
    (answers : Answers memory ⟨.store (.withdraw run), reply⟩ memory') :
    (∃ error, reply = .error error ∧ memory' = memory) ∨
      reply = .ok () ∧
        memory' = { memory with members := memory.members.filter fun entry => entry.run != run } :=
  of_serve_eq rfl answers

theorem of_publish {reply : Except Error Nat}
    (answers : Answers memory ⟨.store (.publish run members), reply⟩ memory') :
    (∃ error, reply = .error error ∧ memory' = memory) ∨
      reply = .ok members.length ∧
        memory' = { memory with
          members := memory.members ++ members.map fun scored => { run, scored } } :=
  of_serve_eq rfl answers

theorem of_sample {reply : Except Error (List Scored)}
    (answers : Answers memory ⟨.store (.sample run count), reply⟩ memory') :
    memory' = memory ∧ ((∃ error, reply = .error error) ∨ ∃ picked, reply = .ok picked ∧
      ∀ row ∈ picked, row ∈ memory.foreignTo run) := by
  cases answers with
  | served yields =>
    obtain ⟨_, picked, _, picked_yields, last, _⟩ := yields_bind_iff.mp yields
    obtain ⟨_, same⟩ := yields_pure_iff.mp last
    obtain ⟨rfl, rfl⟩ := Prod.mk.inj same
    exact ⟨rfl, .inr ⟨picked, rfl, Draw.mem_of_mem_sample picked_yields⟩⟩
  | failed _ error => exact ⟨rfl, .inl ⟨error, rfl⟩⟩

/-- A call leaves what it leaves when it is served, or it has failed and leaves everything as it
was. -/
theorem memory_eq {call : Call} {reply : Except Error call.Reply}
    (answers : Answers memory ⟨.store call, reply⟩ memory') :
    memory' = memory.after call ∨ memory' = memory := by
  cases answers with
  | failed _ error => exact .inr rfl
  | served yields =>
    left
    cases call with
    | sample run count =>
      obtain ⟨_, rows, _, _, last, _⟩ := yields_bind_iff.mp yields
      obtain ⟨_, same⟩ := yields_pure_iff.mp last
      exact (Prod.mk.inj same).2
    | _ => exact (Prod.mk.inj (yields_pure_iff.mp yields).2).2

/-- Calls that are about no run's published rows leave all of them alone. -/
theorem members_eq_of_log {call : Call} {reply : Except Error call.Reply}
    (answers : Answers memory ⟨.store call, reply⟩ memory') (unowned : call.owner? = none) :
    memory'.members = memory.members := by
  rcases answers.memory_eq with rfl | rfl
  · cases call <;> first | rfl | cases unowned
  · rfl

/-- A published row has been there before, or it has just been published. -/
theorem of_mem_members {call : Call} {reply : Except Error call.Reply} {entry : Entry}
    (answers : Answers memory ⟨.store call, reply⟩ memory') (entry_mem : entry ∈ memory'.members) :
    entry ∈ memory.members ∨
      ∃ members, call = .publish entry.run members ∧ entry.scored ∈ members := by
  rcases answers.memory_eq with rfl | rfl
  · exact Memory.mem_members_after entry_mem
  · exact .inl entry_mem

/-- A final row has been there before, or it has just been logged. -/
theorem of_mem_finals {call : Call} {reply : Except Error call.Reply} {entry : Entry}
    (answers : Answers memory ⟨.store call, reply⟩ memory') (entry_mem : entry ∈ memory'.finals) :
    entry ∈ memory.finals ∨ call = .logFinal entry.run entry.scored := by
  rcases answers.memory_eq with rfl | rfl
  · exact Memory.mem_finals_after entry_mem
  · exact .inl entry_mem

end Answers

namespace Store.Memory

variable {memory : Memory} {run other : Int64}

theorem membersOf_withdraw :
    membersOf { memory with members := memory.members.filter fun entry => entry.run != run } other =
      if other = run then [] else memory.membersOf other := by
  simp only [membersOf, List.filter_filter]
  split
  · next same =>
    subst same
    simp
  · next apart =>
    refine congrArg _ (List.filter_congr fun entry _ => ?_)
    by_cases own : entry.run = other
    · simp [own, apart]
    · simp [own]

theorem membersOf_publish {members : List Scored} :
    membersOf { memory with
      members := memory.members ++ members.map fun scored => { run, scored } } other =
      memory.membersOf other ++ if other = run then members else [] := by
  simp only [membersOf, List.filter_append, List.map_append, List.filter_map]
  split
  · next same =>
    subst same
    simp [Function.comp_def]
  · next apart => simp [Function.comp_def, Ne.symm apart]

/-- A foreign row is one of the rows of some other run. -/
theorem exists_of_mem_foreignTo {row : Scored} (row_mem : row ∈ memory.foreignTo run) :
    ∃ entry ∈ memory.members, entry.run ≠ run ∧ entry.scored = row ∧
      row ∈ memory.membersOf entry.run := by
  obtain ⟨entry, entry_mem, rfl⟩ := List.mem_map.mp row_mem
  obtain ⟨inside, foreign⟩ := List.mem_filter.mp entry_mem
  refine ⟨entry, inside, by simpa using foreign, rfl, ?_⟩
  exact List.mem_map.mpr ⟨entry, List.mem_filter.mpr ⟨inside, by simp⟩, rfl⟩

end Store.Memory

/-- A program of one instruction. -/
def Store.copier : Program where
  setup := []
  predict := [⟨⟨3⟩, ⟨.scalar, 0⟩, [⟨.scalar, 1⟩]⟩]
  learn := []

/-- What a store in memory answers where nothing fails, chance always brings zero, and the clock
stands still. -/
def Store.Memory.reply? (memory : Memory) : (query : Effect) → Option (query.Answer × Memory)
  | .chance _ => some ((0 : UInt64), memory)
  | .store call =>
    match Script.run (fun _ state => .ok ((0 : UInt64), state)) (Backend.serve call memory) () with
    | .ok (served, _) => some served
    | .error _ => none
  | .clock => some ((0 : Nat), memory)

theorem answers_of_reply? {memory memory' : Memory} {query : Effect} {answer : query.Answer}
    (replied : memory.reply? query = some (answer, memory')) :
    Answers memory ⟨query, answer⟩ memory' := by
  cases query with
  | chance choice =>
    obtain ⟨rfl, rfl⟩ := Prod.mk.inj (Option.some.inj replied)
    exact .chance choice _
  | store call =>
    rw [Memory.reply?] at replied
    split at replied
    · next run =>
      obtain rfl := Option.some.inj replied
      obtain ⟨_, yields⟩ := exists_yields_of_run_eq_ok run
      exact .served yields
    · cases replied
  | clock =>
    obtain ⟨rfl, rfl⟩ := Prod.mk.inj (Option.some.inj replied)
    exact .clock _

end EvoSearch
