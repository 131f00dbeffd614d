/-
# What a draw takes from a stream

A stream of words decides what a draw ends in, and where the stream stands by then. Two draws that
end alike on every stream, the one in a value wherever the other does and always behind the same
words, have taken the same words; so a draw that does more can be compared with plain draws of an
index.

A draw that is repeated until a number hits takes what a row of plain draws would take, up to the
first hit and no further.
-/

import Mathlib.Data.List.Forall2
import EvoSearch.Proofs.Chance

namespace EvoSearch

open Script EvoSearch.Random

namespace Script

variable {I : Interface} {α β γ δ σ : Type}
  {serve : (q : I.Query) → σ → Except Fault (I.Answer q × σ)}

/-- In surroundings that give granted answers only, a script ends as it is ensured to. -/
theorem Ensures.of_run {allowed : (q : I.Query) → I.Answer q → Prop} {post : α → Prop}
    {script : Script I α} (ensures : script.Ensures allowed post)
    (faithful : ∀ q state answer after, serve q state = .ok (answer, after) → allowed q answer)
    {state after : σ} {value : α} (run : script.run serve state = .ok (value, after)) :
    post value := by
  induction script generalizing state with
  | done result =>
    obtain ⟨rfl, rfl⟩ := Prod.mk.inj (Except.ok.inj run)
    exact ensures
  | fault reason => exact ensures.elim
  | ask q next ih =>
    rw [Script.run] at run
    split at run
    · cases run
    · next answer mid served => exact ih answer (ensures answer (faithful q _ _ _ served)) run

/-- A sequence that comes to its end has gone through its first part, and then through its
second. -/
theorem exists_of_run_bind {script : Script I α} {f : α → Script I β} {state after : σ} {value : β}
    (run : (script >>= f).run serve state = .ok (value, after)) :
    ∃ first mid, script.run serve state = .ok (first, mid) ∧
      (f first).run serve mid = .ok (value, after) := by
  rw [run_bind] at run
  split at run
  · cases run
  · next first mid first_run => exact ⟨first, mid, first_run, run⟩

/-- The same fault, or related values and the same state. -/
inductive SameEnd (related : α → β → Prop) :
    Except Fault (α × σ) → Except Fault (β × σ) → Prop
  | fault (reason : Fault) : SameEnd related (.error reason) (.error reason)
  | value {value : α} {other : β} {state : σ} :
      related value other → SameEnd related (.ok (value, state)) (.ok (other, state))

theorem SameEnd.mono {related weaker : α → β → Prop} {result : Except Fault (α × σ)}
    {other : Except Fault (β × σ)} (ends : SameEnd related result other)
    (weaken : ∀ value counterpart, related value counterpart → weaker value counterpart) :
    SameEnd weaker result other := by
  cases ends with
  | fault reason => exact .fault reason
  | value holds => exact .value (weaken _ _ holds)

theorem SameEnd.exists_of_ok {related : α → β → Prop} {result : Except Fault (α × σ)} {other : β}
    {state : σ} (ends : SameEnd related result (.ok (other, state))) :
    ∃ value, result = .ok (value, state) ∧ related value other := by
  cases ends with
  | value holds => exact ⟨_, rfl, holds⟩

/-- From whatever state, two scripts end alike. -/
def RunsAlike (serve : (q : I.Query) → σ → Except Fault (I.Answer q × σ))
    (related : α → β → Prop) (script : Script I α) (other : Script I β) : Prop :=
  ∀ state, SameEnd related (script.run serve state) (other.run serve state)

theorem RunsAlike.bind {mid : α → β → Prop} {post : γ → δ → Prop} {script : Script I α}
    {other : Script I β} {f : α → Script I γ} {g : β → Script I δ}
    (front : RunsAlike serve mid script other)
    (back : ∀ value result, mid value result → RunsAlike serve post (f value) (g result)) :
    RunsAlike serve post (script >>= f) (other >>= g) := by
  intro state
  have ends := front state
  rw [run_bind, run_bind]
  revert ends
  generalize script.run serve state = result
  generalize other.run serve state = counterpart
  rintro (reason | holds)
  · exact .fault reason
  · exact back _ _ holds _

theorem RunsAlike.replicate {related : α → β → Prop} {script : Script I α} {other : Script I β}
    (alike : RunsAlike serve related script other) (count : Nat) :
    RunsAlike serve (List.Forall₂ related) (replicate count script) (replicate count other) := by
  induction count with
  | zero => exact fun _ => .value .nil
  | succ count ih =>
    rw [replicate_succ, replicate_succ]
    apply alike.bind
    intro head counterpart head_related
    apply ih.bind
    intro tail others tail_related _
    exact .value (.cons head_related tail_related)

theorem run_replicate_succ {body : Script I α} {count : Nat} {state mid after : σ} {head : α}
    {tail : List α} (first : body.run serve state = .ok (head, mid))
    (rest : (replicate count body).run serve mid = .ok (tail, after)) :
    (replicate (count + 1) body).run serve state = .ok (head :: tail, after) := by
  simp only [replicate_succ, run_bind, first, rest]
  rfl

/-- A script so many times, and then some more times. -/
theorem run_replicate_add {body : Script I α} {count more : Nat} {state mid after : σ}
    {front back : List α} (first : (replicate count body).run serve state = .ok (front, mid))
    (rest : (replicate more body).run serve mid = .ok (back, after)) :
    (replicate (more + count) body).run serve state = .ok (front ++ back, after) := by
  induction count generalizing state front with
  | zero =>
    obtain ⟨rfl, rfl⟩ := Prod.mk.inj (Except.ok.inj first)
    exact rest
  | succ count ih =>
    rw [replicate_succ, run_bind] at first
    split at first
    · cases first
    · next head between head_run =>
      rw [run_bind] at first
      split at first
      · cases first
      · next tail last tail_run =>
        obtain ⟨rfl, rfl⟩ := Prod.mk.inj (Except.ok.inj first)
        exact run_replicate_succ head_run (ih tail_run)

end Script

namespace Draw

variable {α ρ : Type} [WordStream ρ] {patience size : Nat} {stream mid after : ρ}

/-- On a stream, a draw ends as it is ensured to for all numbers in range. -/
theorem of_run {draw : Draw α} {post : α → Prop} (ensures : draw.Ensures Choice.Admits post)
    {value : α} (run : draw.run patience stream = .ok (value, after)) : post value :=
  ensures.of_run (fun _ _ _ _ => Choice.admits_of_serve) run

/-- A draw that is safe for all numbers in range only fails if a redraw loop does not come to an
end. -/
theorem stalled_of_run {draw : Draw α} {post : α → Prop}
    (ensures : draw.Ensures Choice.Admits post) {reason : Fault}
    (faulty : draw.run patience stream = .error reason) : reason = .stalled := by
  obtain ⟨choice, words, unserved⟩ :=
    ensures.exists_of_run_eq_error (fun _ _ _ _ => Choice.admits_of_serve) faulty
  exact Choice.stalled_of_serve unserved

/-- Plain draws of an index below `size`, one after another, bring just these indices. -/
def Brings (patience size : Nat) (stream : ρ) (indices : List Nat) (after : ρ) : Prop :=
  Draw.run patience (replicate indices.length (index size)) stream = .ok (indices, after)

theorem brings_nil : Brings patience size stream [] stream :=
  rfl

theorem Brings.cons {head : Nat} {tail : List Nat}
    (first : (index size).run patience stream = .ok (head, mid))
    (rest : Brings patience size mid tail after) :
    Brings patience size stream (head :: tail) after :=
  run_replicate_succ first rest

theorem Brings.append {front back : List Nat} (first : Brings patience size stream front mid)
    (rest : Brings patience size mid back after) :
    Brings patience size stream (front ++ back) after := by
  rw [Brings, List.length_append, Nat.add_comm]
  exact run_replicate_add first rest

/-- A draw of a number that is turned into something else takes the words of the number. -/
theorem run_upTo_eq (f : UInt64 → α) (bound : UInt64) :
    (upTo bound >>= fun number => pure (f number)).run patience stream =
      (Choice.fromWords64 patience bound stream).map fun (number, after) => (f number, after) := by
  rw [Draw.run, upTo, ask_bind, Script.run, Choice.serve]
  cases Choice.fromWords64 patience bound stream <;> rfl

theorem run_index_of_fromWords64 {number : UInt64} (nonempty : size ≠ 0)
    (drawn : Choice.fromWords64 patience (UInt64.ofNat (size - 1)) stream = .ok (number, mid)) :
    (index size).run patience stream = .ok (number.toNat, mid) := by
  rw [index, if_neg nonempty, run_upTo_eq, drawn]
  rfl

/-- The induction is on the patience of the search, while that of its single draws stays. -/
theorem exists_misses_of_firstOf {hit : Nat → Bool} {rounds : Nat} {answer : UInt64}
    (nonempty : size ≠ 0)
    (served : Choice.firstOf rounds (fun number => hit number.toNat)
      (Choice.fromWords64 patience (UInt64.ofNat (size - 1))) stream = .ok (answer, after)) :
    ∃ misses, Brings patience size stream (misses ++ [answer.toNat]) after ∧
      (∀ miss ∈ misses, hit miss = false) ∧ hit answer.toNat = true := by
  induction rounds generalizing stream with
  | zero => cases served
  | succ rounds ih =>
    rw [Choice.firstOf, Choice.retry] at served
    cases drawn : Choice.fromWords64 patience (UInt64.ofNat (size - 1)) stream with
    | error reason =>
      rw [drawn] at served
      cases served
    | ok outcome =>
      obtain ⟨number, mid⟩ := outcome
      have plain := run_index_of_fromWords64 nonempty drawn
      rw [drawn] at served
      dsimp only at served
      by_cases hits : hit number.toNat = true
      · rw [if_pos hits] at served
        obtain ⟨rfl, rfl⟩ := Prod.mk.inj (Except.ok.inj served)
        exact ⟨[], brings_nil.cons plain, by rintro _ ⟨⟩, hits⟩
      · rw [if_neg hits] at served
        obtain ⟨misses, brings, all_miss, found⟩ := ih served
        refine ⟨number.toNat :: misses, brings.cons plain, ?_, found⟩
        exact List.forall_mem_cons.mpr ⟨Bool.not_eq_true _ ▸ hits, all_miss⟩

/-- What is drawn until a number hits are the numbers that miss, and the first one that hits. -/
theorem exists_misses_of_run {hit : Nat → Bool} {found : Nat}
    (run : (indexUntil size hit).run patience stream = .ok (found, after)) :
    ∃ misses, Brings patience size stream (misses ++ [found]) after ∧
      (∀ miss ∈ misses, hit miss = false) ∧ hit found = true := by
  rw [indexUntil] at run
  split at run
  · cases run
  · next nonempty =>
    rw [Draw.run, Script.run, Choice.serve] at run
    split at run
    · cases run
    · next answer last served =>
      obtain ⟨rfl, rfl⟩ := Prod.mk.inj (Except.ok.inj run)
      exact exists_misses_of_firstOf nonempty served

end Draw

end EvoSearch
