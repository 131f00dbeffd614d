/-
# Scripts in lockstep

Two scripts are in lockstep if they put the questions of a shared kind together, and may put others
on their own in between, without ending up apart because of the answers. If both then run from the
same state, and the questions that are not shared leave the state alone, they end in the same state,
with results that are related in the same way.

This is how two runs are compared that differ in what they ask and in what they are told, but not in
what they draw.
-/

import EvoSearch.Proofs.Dialogue

namespace EvoSearch.Script

variable {I : Interface} {α β γ δ σ : Type}

section Ends

variable (answers : (q : I.Query) → I.Answer q → σ → σ → Prop)

/-- From one state on, the script ends in a value and in another state. What a state answers to a
question, and how it goes on, is up to `answers`. -/
inductive EndsIn : Script I α → σ → α → σ → Prop
  | done (value : α) (state : σ) : EndsIn (.done value) state value state
  | ask {q : I.Query} {next : I.Answer q → Script I α} {answer : I.Answer q}
      {state mid last : σ} {value : α} :
      answers q answer state mid → EndsIn (next answer) mid value last →
      EndsIn (.ask q next) state value last

/-- From a state on, the script comes to an end without a fault, and in a value and a state with
`post`, whatever it is answered; and there is an answer to every question. -/
def EnsuresIn : Script I α → σ → (α → σ → Prop) → Prop
  | done value, state, post => post value state
  | fault _, _, _ => False
  | ask q next, state, post =>
    (∃ answer after, answers q answer state after) ∧
      ∀ answer after, answers q answer state after → (next answer).EnsuresIn after post

variable {answers} {script : Script I α} {state last : σ} {value : α}

theorem endsIn_pure_iff {result : α} :
    (pure result : Script I α).EndsIn answers state value last ↔ value = result ∧ last = state := by
  constructor
  · rintro ⟨⟩
    exact ⟨rfl, rfl⟩
  · rintro ⟨rfl, rfl⟩
    exact .done _ _

theorem exists_of_endsIn_ask {q : I.Query} {next : I.Answer q → Script I α}
    (ends : (ask q next).EndsIn answers state value last) :
    ∃ answer mid, answers q answer state mid ∧ (next answer).EndsIn answers mid value last := by
  cases ends with
  | ask answered rest => exact ⟨_, _, answered, rest⟩

/-- What is ensured holds wherever the script ends. -/
theorem EnsuresIn.of_endsIn {post : α → σ → Prop} (ensures : script.EnsuresIn answers state post)
    (ends : script.EndsIn answers state value last) : post value last := by
  induction ends with
  | done value state => exact ensures
  | ask answered _ ih => exact ih (ensures.2 _ _ answered)

theorem EnsuresIn.mono {stronger post : α → σ → Prop}
    (ensures : script.EnsuresIn answers state stronger)
    (weaken : ∀ value after, stronger value after → post value after) :
    script.EnsuresIn answers state post := by
  induction script generalizing state with
  | done value => exact weaken value state ensures
  | fault reason => exact ensures.elim
  | ask q next ih =>
    exact ⟨ensures.1, fun answer after told => ih answer (ensures.2 answer after told)⟩

/-- A sequence ends where its second part does, from where the first one has ended. -/
theorem endsIn_bind_iff {f : α → Script I β} {result : β} :
    (script >>= f).EndsIn answers state result last ↔
      ∃ value mid, script.EndsIn answers state value mid ∧
        (f value).EndsIn answers mid result last := by
  constructor
  · intro ends
    induction script generalizing state with
    | done value => exact ⟨value, state, .done value state, ends⟩
    | fault reason => cases ends
    | ask q next ih =>
      obtain ⟨answer, mid, answered, rest⟩ := exists_of_endsIn_ask ends
      obtain ⟨value, between, front, back⟩ := ih answer rest
      exact ⟨value, between, .ask answered front, back⟩
  · rintro ⟨value, mid, front, back⟩
    induction front with
    | done => exact back
    | ask answered _ ih => exact .ask answered (ih back)

/-- What is ensured of the second part, from wherever the first one may end, is ensured of the
sequence. -/
theorem EnsuresIn.bind {f : α → Script I β} {between : α → σ → Prop} {post : β → σ → Prop}
    (front : script.EnsuresIn answers state between)
    (back : ∀ value mid, between value mid → (f value).EnsuresIn answers mid post) :
    (script >>= f).EnsuresIn answers state post := by
  induction script generalizing state with
  | done value => exact back value state front
  | fault reason => exact front.elim
  | ask q next ih =>
    exact ⟨front.1, fun answer after answered => ih answer (front.2 answer after answered)⟩

/-- Surroundings that serve as `answers` says make a script end in this way. -/
theorem endsIn_of_run {τ : Type} {serve : (q : I.Query) → τ → Except Fault (I.Answer q × τ)}
    {view : τ → σ} (faithful : ∀ q before answer after, serve q before = .ok (answer, after) →
      answers q answer (view before) (view after))
    {start stop : τ} (run : script.run serve start = .ok (value, stop)) :
    script.EndsIn answers (view start) value (view stop) := by
  induction script generalizing start with
  | done result =>
    obtain ⟨rfl, rfl⟩ := Prod.mk.inj (Except.ok.inj run)
    exact .done _ _
  | fault reason => cases run
  | ask q next ih =>
    rw [Script.run] at run
    split at run
    · cases run
    · next answer after served => exact .ask (faithful q start answer after served) (ih _ run)

end Ends

section InStep

variable (shared : I.Query → Prop) (granted : (q : I.Query) → I.Answer q → Prop)

/-- The second script ends whenever the first does, with results that are related by `post`: they
put the shared questions together, and on all others they only rely on the answers being granted
ones. -/
inductive InStep (post : α → β → Prop) : Script I α → Script I β → Prop
  | done {value : α} {other : β} : post value other → InStep post (.done value) (.done other)
  | stuck (reason : Fault) (other : Script I β) : InStep post (.fault reason) other
  | both {q : I.Query} {next : I.Answer q → Script I α} {follow : I.Answer q → Script I β} :
      shared q → (∀ answer, InStep post (next answer) (follow answer)) →
      InStep post (.ask q next) (.ask q follow)
  | first {q : I.Query} {next : I.Answer q → Script I α} {other : Script I β} :
      ¬ shared q → (∀ answer, granted q answer → InStep post (next answer) other) →
      InStep post (.ask q next) other
  | second {q : I.Query} {script : Script I α} {follow : I.Answer q → Script I β} :
      ¬ shared q → (∀ answer, granted q answer → InStep post script (follow answer)) →
      InStep post script (.ask q follow)

variable {shared granted} {mid : α → β → Prop} {script : Script I α} {other : Script I β}

/-- Scripts stay in lockstep if they go on in lockstep. -/
theorem InStep.bind {post : γ → δ → Prop} {f : α → Script I γ} {g : β → Script I δ}
    (front : InStep shared granted mid script other)
    (back : ∀ value result, mid value result → InStep shared granted post (f value) (g result)) :
    InStep shared granted post (script >>= f) (other >>= g) := by
  induction front with
  | done holds => exact back _ _ holds
  | stuck reason other => exact .stuck reason _
  | both is_shared _ ih => exact .both is_shared ih
  | first not_shared _ ih => exact .first not_shared ih
  | second not_shared _ ih => exact .second not_shared ih

theorem InStep.mono {post : α → β → Prop} (inStep : InStep shared granted mid script other)
    (weaken : ∀ value result, mid value result → post value result) :
    InStep shared granted post script other := by
  induction inStep with
  | done holds => exact .done (weaken _ _ holds)
  | stuck reason other => exact .stuck reason _
  | both is_shared _ ih => exact .both is_shared ih
  | first not_shared _ ih => exact .first not_shared ih
  | second not_shared _ ih => exact .second not_shared ih

/-- A script that only puts shared questions is in lockstep with itself, up to a function of its
result. -/
theorem inStep_map (f : α → β) (shares : script.Respects shared (fun _ _ => True) fun _ => True) :
    InStep shared granted (fun value result => result = f value) script (f <$> script) := by
  rw [map_eq_pure_bind]
  induction script with
  | done value => exact .done rfl
  | fault reason => exact .stuck reason _
  | ask q next ih => exact .both shares.1 fun answer => ih answer (shares.2 answer trivial)

/-- Scripts that share no questions are in lockstep if the second comes to an end. -/
theorem InStep.of_apart {first : α → Prop} {second sure : β → Prop}
    (script_respects : script.Respects (fun q => ¬ shared q) granted first)
    (other_respects : other.Respects (fun q => ¬ shared q) granted second)
    (other_ensures : other.Ensures granted sure) :
    InStep shared granted (fun value result => first value ∧ second result) script other := by
  induction script with
  | done value =>
    induction other with
    | done result => exact .done ⟨script_respects, other_respects⟩
    | fault reason => exact other_ensures.elim
    | ask q follow ih =>
      apply InStep.second other_respects.1
      intro answer answer_granted
      exact ih answer (other_respects.2 answer answer_granted)
        (other_ensures answer answer_granted)
  | fault reason => exact .stuck reason _
  | ask q next ih =>
    apply InStep.first script_respects.1
    intro answer answer_granted
    exact ih answer (script_respects.2 answer answer_granted)

/-- Run from the same state, scripts in lockstep end in the same state. The second one comes to an
end if the first does. -/
theorem InStep.ensuresIn {post : α → β → Prop}
    {answers : (q : I.Query) → I.Answer q → σ → σ → Prop}
    (decided : ∀ q answer given state after last, shared q → answers q answer state after →
      answers q given state last → answer = given ∧ after = last)
    (aside : ∀ q answer state after, ¬ shared q → answers q answer state after →
      granted q answer ∧ after = state)
    (answered : ∀ q state, ¬ shared q → ∃ answer after, answers q answer state after)
    (inStep : InStep shared granted post script other) {state last : σ} {value : α}
    (ends : script.EndsIn answers state value last) :
    other.EnsuresIn answers state fun result after => post value result ∧ last = after := by
  induction inStep generalizing state with
  | done holds =>
    cases ends with
    | done => exact ⟨holds, rfl⟩
  | stuck reason other => cases ends
  | both is_shared _ ih =>
    obtain ⟨answer, mid, told, rest⟩ := exists_of_endsIn_ask ends
    refine ⟨⟨answer, mid, told⟩, ?_⟩
    intro given after told_other
    obtain ⟨rfl, rfl⟩ := decided _ _ _ _ _ _ is_shared told told_other
    exact ih answer rest
  | first not_shared _ ih =>
    obtain ⟨answer, mid, told, rest⟩ := exists_of_endsIn_ask ends
    obtain ⟨answer_granted, rfl⟩ := aside _ _ _ _ not_shared told
    exact ih answer answer_granted rest
  | second not_shared _ ih =>
    refine ⟨answered _ state not_shared, ?_⟩
    intro given after told
    obtain ⟨given_granted, rfl⟩ := aside _ _ _ _ not_shared told
    exact ih given given_granted ends

end InStep

end EvoSearch.Script
