/-
# Dialogues

A script that has come to its end leaves a dialogue behind: the questions that it put, in order,
each with the answer it was given. Nothing is required of the answers, so what holds for every
dialogue holds in all surroundings, whatever chance, the store and the clock do.

The dialogue of a sequence is the dialogue of its first part followed by that of the second, and
this is how longer computations are taken apart here, by `yields_bind_iff`.
-/

import EvoSearch.Script

namespace EvoSearch

/-- A question together with the answer that it was given. -/
abbrev Interface.Line (I : Interface) : Type :=
  (query : I.Query) × I.Answer query

namespace Script

variable {I J : Interface} {α β σ : Type}

/-- The script ends in a value, after a dialogue. -/
inductive Yields : Script I α → List I.Line → α → Prop
  | done (value : α) : Yields (.done value) [] value
  | ask (q : I.Query) (next : I.Answer q → Script I α) (answer : I.Answer q)
      {dialogue : List I.Line} {value : α} :
      Yields (next answer) dialogue value → Yields (.ask q next) (⟨q, answer⟩ :: dialogue) value

theorem yields_done_iff {result value : α} {dialogue : List I.Line} :
    (done result : Script I α).Yields dialogue value ↔ dialogue = [] ∧ value = result := by
  constructor
  · rintro ⟨⟩
    exact ⟨rfl, rfl⟩
  · rintro ⟨rfl, rfl⟩
    exact .done _

theorem yields_pure_iff {result value : α} {dialogue : List I.Line} :
    (pure result : Script I α).Yields dialogue value ↔ dialogue = [] ∧ value = result :=
  yields_done_iff

theorem not_yields_fault {reason : Fault} {dialogue : List I.Line} {value : α} :
    ¬ (fault reason : Script I α).Yields dialogue value := by
  rintro ⟨⟩

theorem yields_ask_iff {q : I.Query} {next : I.Answer q → Script I α} {dialogue : List I.Line}
    {value : α} : (ask q next).Yields dialogue value ↔
      ∃ answer rest, dialogue = ⟨q, answer⟩ :: rest ∧ (next answer).Yields rest value := by
  constructor
  · rintro (_ | ⟨_, _, answer, rest⟩)
    exact ⟨answer, _, rfl, rest⟩
  · rintro ⟨answer, rest, rfl, yields⟩
    exact .ask q next answer yields

/-- A sequence goes through its first part, and then through the second. -/
theorem yields_bind_iff {script : Script I α} {f : α → Script I β} {dialogue : List I.Line}
    {value : β} : (script >>= f).Yields dialogue value ↔
      ∃ first mid rest, script.Yields first mid ∧ (f mid).Yields rest value ∧
        dialogue = first ++ rest := by
  induction script generalizing dialogue with
  | done result =>
    rw [done_bind]
    constructor
    · intro yields
      exact ⟨[], result, dialogue, .done result, yields, rfl⟩
    · rintro ⟨first, mid, rest, result_yields, yields, rfl⟩
      obtain ⟨rfl, rfl⟩ := yields_done_iff.mp result_yields
      exact yields
  | fault reason =>
    rw [fault_bind]
    constructor
    · intro yields
      exact (not_yields_fault yields).elim
    · rintro ⟨_, _, _, yields, _, _⟩
      exact (not_yields_fault yields).elim
  | ask q next ih =>
    rw [ask_bind, yields_ask_iff]
    constructor
    · rintro ⟨answer, rest, rfl, yields⟩
      obtain ⟨first, mid, rest, first_yields, rest_yields, rfl⟩ := (ih answer).mp yields
      exact ⟨_, mid, rest, .ask q next answer first_yields, rest_yields, rfl⟩
    · rintro ⟨_, mid, rest, first_yields, rest_yields, rfl⟩
      obtain ⟨answer, first, rfl, yields⟩ := yields_ask_iff.mp first_yields
      exact ⟨answer, first ++ rest, rfl,
        (ih answer).mpr ⟨first, mid, rest, yields, rest_yields, rfl⟩⟩

theorem yields_ofOption_iff {reason : Fault} {result : Option α} {dialogue : List I.Line}
    {value : α} : (ofOption reason result : Script I α).Yields dialogue value ↔
      dialogue = [] ∧ result = some value := by
  cases result with
  | none =>
    constructor
    · exact fun yields => (not_yields_fault yields).elim
    · rintro ⟨_, ⟨⟩⟩
  | some result => simp [ofOption, yields_done_iff, eq_comm]

/-- A script put in terms of another interface holds the same dialogue in those terms. -/
theorem Yields.of_lift {embed : I.Query → J.Query}
    {answer : (q : I.Query) → J.Answer (embed q) → I.Answer q} {script : Script I α}
    {dialogue : List J.Line} {value : α}
    (yields : (script.lift embed answer).Yields dialogue value) :
    (∃ talk, script.Yields talk value) ∧ ∀ line ∈ dialogue, ∃ q, line.1 = embed q := by
  induction script generalizing dialogue with
  | done result =>
    obtain ⟨rfl, rfl⟩ := yields_done_iff.mp yields
    exact ⟨⟨[], .done _⟩, by rintro _ ⟨⟩⟩
  | fault reason => exact (not_yields_fault yields).elim
  | ask q next ih =>
    obtain ⟨given, rest, rfl, rest_yields⟩ := yields_ask_iff.mp yields
    obtain ⟨⟨talk, talk_yields⟩, embedded⟩ := ih (answer q given) rest_yields
    refine ⟨⟨_, .ask q next (answer q given) talk_yields⟩, ?_⟩
    rintro line (_ | ⟨_, line_mem⟩)
    · exact ⟨q, rfl⟩
    · exact embedded line line_mem

/-- Every run of a script is one of its dialogues. -/
theorem exists_yields_of_run_eq_ok {serve : (q : I.Query) → σ → Except Fault (I.Answer q × σ)}
    {script : Script I α} {state after : σ} {value : α}
    (run : script.run serve state = .ok (value, after)) :
    ∃ dialogue, script.Yields dialogue value := by
  induction script generalizing state with
  | done result =>
    obtain ⟨rfl, _⟩ := Prod.mk.inj (Except.ok.inj run)
    exact ⟨[], .done result⟩
  | fault reason => cases run
  | ask q next ih =>
    rw [Script.run] at run
    split at run
    · cases run
    · obtain ⟨dialogue, yields⟩ := ih _ run
      exact ⟨_, .ask q next _ yields⟩

/-- What can be seen of the result of a run holds at the end of a dialogue. -/
theorem exists_yields_of_run {serve : (q : I.Query) → σ → Except Fault (I.Answer q × σ)}
    {script : Script I α} {state : σ} (seen : α → Bool)
    (run : ((script.run serve state).toOption.any fun outcome => seen outcome.1) = true) :
    ∃ dialogue value, script.Yields dialogue value ∧ seen value = true := by
  cases outcome : script.run serve state with
  | error reason =>
    rw [outcome] at run
    cases run
  | ok ended =>
    rw [outcome] at run
    obtain ⟨dialogue, yields⟩ := exists_yields_of_run_eq_ok outcome
    exact ⟨dialogue, ended.1, yields, run⟩

/-- The script asks nothing but what it is meant to ask, and ends in a value with `post`, as long as
all answers are granted ones. -/
def Respects (asks : I.Query → Prop) (granted : (q : I.Query) → I.Answer q → Prop) :
    Script I α → (α → Prop) → Prop
  | done value, post => post value
  | fault _, _ => True
  | ask q next, post =>
    asks q ∧ ∀ answer, granted q answer → (next answer).Respects asks granted post

section Respects

variable {asks : I.Query → Prop} {granted : (q : I.Query) → I.Answer q → Prop} {mid : β → Prop}
  {post : α → Prop}

theorem Respects.bind {script : Script I β} {f : β → Script I α}
    (first : script.Respects asks granted mid)
    (second : ∀ value, mid value → (f value).Respects asks granted post) :
    (script >>= f).Respects asks granted post := by
  induction script with
  | done value => exact second value first
  | fault reason => trivial
  | ask q next ih =>
    exact ⟨first.1, fun answer granted => ih answer (first.2 answer granted)⟩

theorem Respects.mono {stronger : α → Prop} {script : Script I α}
    (respects : script.Respects asks granted stronger)
    (weaken : ∀ value, stronger value → post value) : script.Respects asks granted post := by
  induction script with
  | done value => exact weaken value respects
  | fault reason => trivial
  | ask q next ih =>
    exact ⟨respects.1, fun answer granted => ih answer (respects.2 answer granted)⟩

/-- What a script is not meant to ask is in none of its dialogues. -/
theorem Respects.asks_of_mem {script : Script I α} {dialogue : List I.Line} {value : α}
    (respects : script.Respects asks (fun _ _ => True) post)
    (yields : script.Yields dialogue value) : ∀ line ∈ dialogue, asks line.1 := by
  induction yields with
  | done value => exact fun _ mem => absurd mem List.not_mem_nil
  | ask q next answer _ ih =>
    exact List.forall_mem_cons.mpr ⟨respects.1, ih (respects.2 answer trivial)⟩

/-- The value of an option is asked of nobody. -/
theorem respects_ofOption {reason : Fault} {result : Option α} :
    (ofOption reason result : Script I α).Respects asks granted fun value =>
      result = some value := by
  cases result with
  | none => trivial
  | some value => exact rfl

/-- A script in terms of another interface, where it may ask whatever it asks: it is enough to know
what it can end in. -/
theorem Respects.lift {asks : J.Query → Prop} {granted : (q : J.Query) → J.Answer q → Prop}
    {embed : I.Query → J.Query} {answer : (q : I.Query) → J.Answer (embed q) → I.Answer q}
    {script : Script I α} (free : ∀ q, asks (embed q))
    (yields : ∀ dialogue value, script.Yields dialogue value → post value) :
    (script.lift embed answer).Respects asks granted post := by
  induction script with
  | done value => exact yields [] value (.done value)
  | fault reason => trivial
  | ask q next ih =>
    refine ⟨free q, fun given _ => ih (answer q given) fun _ value value_yields => ?_⟩
    exact yields _ value (.ask q next (answer q given) value_yields)

end Respects

section Ensures

variable {allowed : (q : I.Query) → I.Answer q → Prop} {post : α → Prop}

theorem Ensures.mono {stronger : α → Prop} {script : Script I α}
    (ensures : script.Ensures allowed stronger) (weaken : ∀ value, stronger value → post value) :
    script.Ensures allowed post := by
  induction script with
  | done value => exact weaken value ensures
  | fault reason => exact ensures.elim
  | ask q next ih => exact fun answer granted => ih answer (ensures answer granted)

/-- Where a script comes to an end, it does so as all its dialogues do. -/
theorem Ensures.of_yields {script : Script I α} {sure : α → Prop}
    (ensures : script.Ensures allowed sure)
    (ends : ∀ dialogue value, script.Yields dialogue value → post value) :
    script.Ensures allowed post := by
  induction script with
  | done value => exact ends [] value (.done value)
  | fault reason => exact ensures.elim
  | ask q next ih =>
    intro answer granted
    apply ih answer (ensures answer granted)
    intro dialogue value yields
    exact ends _ value (.ask q next answer yields)

theorem ensures_ofOption {reason : Fault} {result : Option α} {value : α}
    (found : result = some value) (holds : post value) :
    (ofOption reason result : Script I α).Ensures allowed post := by
  rw [found]
  exact holds

/-- What one round of a loop keeps, the loop keeps. -/
theorem ensures_foldlM {ι : Type} {f : α → ι → Script I α} {items : List ι}
    (round : ∀ item ∈ items, ∀ state, post state → (f state item).Ensures allowed post)
    {start : α} (holds : post start) : (items.foldlM f start).Ensures allowed post := by
  induction items generalizing start with
  | nil => exact holds
  | cons item items ih =>
    rw [List.foldlM_cons]
    apply (round item List.mem_cons_self start holds).bind
    intro state state_holds
    exact ih (fun other behind => round other (List.mem_cons_of_mem item behind)) state_holds

/-- A script over and over again brings as many results as asked for, each of them as it should
be. -/
theorem ensures_replicate {body : Script I α} (each : body.Ensures allowed post) (count : Nat) :
    (replicate count body).Ensures allowed fun results =>
      results.length = count ∧ ∀ result ∈ results, post result := by
  induction count with
  | zero => exact ⟨rfl, fun _ mem => absurd mem List.not_mem_nil⟩
  | succ count ih =>
    rw [replicate_succ]
    apply each.bind
    intro head head_holds
    apply ih.bind
    rintro tail ⟨length_eq, tail_holds⟩
    refine ⟨congrArg Nat.succ length_eq, ?_⟩
    intro result mem
    rcases List.mem_cons.mp mem with rfl | behind
    · exact head_holds
    · exact tail_holds result behind

/-- A script in terms of another interface, whose granted answers are granted ones in its own
terms. -/
theorem Ensures.lift {granted : (q : J.Query) → J.Answer q → Prop} {embed : I.Query → J.Query}
    {answer : (q : I.Query) → J.Answer (embed q) → I.Answer q} {script : Script I α}
    (ensures : script.Ensures allowed post)
    (faithful : ∀ q given, granted (embed q) given → allowed q (answer q given)) :
    (script.lift embed answer).Ensures granted post := by
  induction script with
  | done value => exact ensures
  | fault reason => exact ensures.elim
  | ask q next ih =>
    intro given given_granted
    exact ih _ (ensures _ (faithful q given given_granted))

/-- In surroundings that give granted answers only, a script ends in a fault only if the
surroundings do. -/
theorem Ensures.exists_of_run_eq_error
    {serve : (q : I.Query) → σ → Except Fault (I.Answer q × σ)} {script : Script I α}
    (ensures : script.Ensures allowed post)
    (faithful : ∀ q state answer after, serve q state = .ok (answer, after) → allowed q answer)
    {state : σ} {reason : Fault} (faulty : script.run serve state = .error reason) :
    ∃ q state, serve q state = .error reason := by
  induction script generalizing state with
  | done value => cases faulty
  | fault reason => exact ensures.elim
  | ask q next ih =>
    rw [Script.run] at faulty
    split at faulty
    · next served =>
      obtain rfl := Except.error.inj faulty
      exact ⟨q, state, served⟩
    · next answer after served =>
      exact ih answer (ensures answer (faithful q state answer after served)) faulty

end Ensures

end Script

end EvoSearch
