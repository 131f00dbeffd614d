/-
# Scripts

A script is a computation that has to ask its surroundings for things: a random choice, a reply
from a store, the time. It is kept as the tree of its questions and of what it does with every
answer, so one and the same script can be run against a real stream of random words, or against
all answers that are possible at all.
-/

import EvoSearch.Fault

namespace EvoSearch

/-- What scripts of one kind may ask, and the type of the answer to each question. -/
structure Interface where
  Query : Type
  Answer : Query → Type

/-- A computation with result type `α` that puts questions of `I` to its surroundings. -/
inductive Script (I : Interface) (α : Type) : Type
  | done (value : α)
  | fault (reason : Fault)
  | ask (query : I.Query) (next : I.Answer query → Script I α)

namespace Script

variable {I J : Interface} {α β γ σ : Type}

/-- Run the first script, then the one that its result picks. -/
protected def bind : Script I α → (α → Script I β) → Script I β
  | done value, f => f value
  | fault reason, _ => fault reason
  | ask query next, f => ask query fun answer => (next answer).bind f

/-- Hand a fault over to `recover` in place of ending. -/
protected def tryCatch : Script I α → (Fault → Script I α) → Script I α
  | done value, _ => done value
  | fault reason, recover => recover reason
  | ask query next, recover => ask query fun answer => (next answer).tryCatch recover

instance : Monad (Script I) where
  pure := done
  bind := Script.bind

instance : MonadExceptOf Fault (Script I) where
  throw := fault
  tryCatch := Script.tryCatch

/-- Put one question and return its answer. -/
def query (q : I.Query) : Script I (I.Answer q) :=
  ask q done

/-- The value of an option, or a fault where there is none. -/
def ofOption (reason : Fault) : Option α → Script I α
  | some value => done value
  | none => fault reason

/-- The script `body` `count` times over, each result put in front of those before it. -/
def replicateOnto (count : Nat) (body : Script I α) (results : List α) : Script I (List α) :=
  match count with
  | 0 => pure results
  | n + 1 => do
    let result ← body
    replicateOnto n body (result :: results)

/-- The script `body` `count` times over, its results in order. -/
def replicate (count : Nat) (body : Script I α) : Script I (List α) :=
  replicateOnto count body [] >>= fun results => pure results.reverse

/-- Run a script against surroundings with state `σ`. -/
def run (serve : (q : I.Query) → σ → Except Fault (I.Answer q × σ)) :
    Script I α → σ → Except Fault (α × σ)
  | done value, state => .ok (value, state)
  | fault reason, _ => .error reason
  | ask q next, state =>
    match serve q state with
    | .error reason => .error reason
    | .ok (answer, state) => run serve (next answer) state

/-- Carry a script over to another monad, question by question. -/
def interpret {m : Type → Type} [Monad m] [MonadExceptOf Fault m]
    (serve : (q : I.Query) → m (I.Answer q)) : Script I α → m α
  | done value => pure value
  | fault reason => throw reason
  | ask q next => do
    let answer ← serve q
    interpret serve (next answer)

/-- The same script with its questions put in terms of another interface. -/
def lift (embed : I.Query → J.Query) (answer : (q : I.Query) → J.Answer (embed q) → I.Answer q) :
    Script I α → Script J α
  | done value => done value
  | fault reason => fault reason
  | ask q next => ask (embed q) fun given => (next (answer q given)).lift embed answer

/-- The results that a script can have when every answer is one that `allowed` grants. -/
inductive Reaches (allowed : (q : I.Query) → I.Answer q → Prop) : Script I α → α → Prop
  | done (value : α) : Reaches allowed (.done value) value
  | ask (q : I.Query) (next : I.Answer q → Script I α) (answer : I.Answer q) (value : α) :
      allowed q answer → Reaches allowed (next answer) value →
      Reaches allowed (.ask q next) value

/-- The script ends without a fault, and in a result with `post`, whatever the granted answers. -/
def Ensures (allowed : (q : I.Query) → I.Answer q → Prop) : Script I α → (α → Prop) → Prop
  | done value, post => post value
  | fault _, _ => False
  | ask q next, post => ∀ answer, allowed q answer → (next answer).Ensures allowed post

@[simp] theorem pure_eq_done (value : α) : (pure value : Script I α) = done value := rfl

@[simp] theorem ofOption_some (reason : Fault) (value : α) :
    (ofOption reason (some value) : Script I α) = done value := rfl

@[simp] theorem done_bind (value : α) (f : α → Script I β) : (done value >>= f) = f value := rfl

@[simp] theorem fault_bind (reason : Fault) (f : α → Script I β) :
    (fault reason >>= f) = fault reason := rfl

@[simp] theorem ask_bind (q : I.Query) (next : I.Answer q → Script I α) (f : α → Script I β) :
    (ask q next >>= f) = ask q fun answer => next answer >>= f := rfl

theorem bind_done (script : Script I α) : (script >>= done) = script := by
  induction script with
  | done value => rfl
  | fault reason => rfl
  | ask q next ih => simp [ih]

theorem bind_assoc (script : Script I α) (f : α → Script I β) (g : β → Script I γ) :
    (script >>= f >>= g) = script >>= fun value => f value >>= g := by
  induction script with
  | done value => rfl
  | fault reason => rfl
  | ask q next ih => simp [ih]

instance : LawfulMonad (Script I) :=
  LawfulMonad.mk' _ bind_done (fun _ _ => rfl) bind_assoc

theorem replicateOnto_eq (count : Nat) (body : Script I α) (results : List α) :
    replicateOnto count body results =
      replicateOnto count body [] >>= fun fresh => pure (fresh ++ results) := by
  induction count generalizing results with
  | zero => rfl
  | succ n ih =>
    simp only [replicateOnto, bind_assoc]
    refine congrArg (body >>= ·) (funext fun result => ?_)
    rw [ih (result :: results), ih [result]]
    simp

@[simp] theorem replicate_zero (body : Script I α) : replicate 0 body = pure [] := rfl

/-- The first result comes before the others. -/
theorem replicate_succ (count : Nat) (body : Script I α) :
    replicate (count + 1) body =
      body >>= fun head => replicate count body >>= fun tail => pure (head :: tail) := by
  simp only [replicate, replicateOnto, bind_assoc]
  refine congrArg (body >>= ·) (funext fun head => ?_)
  rw [replicateOnto_eq count body [head]]
  simp

theorem lift_bind (embed : I.Query → J.Query)
    (answer : (q : I.Query) → J.Answer (embed q) → I.Answer q) (script : Script I α)
    (f : α → Script I β) :
    (script >>= f).lift embed answer =
      script.lift embed answer >>= fun value => (f value).lift embed answer := by
  induction script with
  | done value => rfl
  | fault reason => rfl
  | ask q next ih => simp [lift, ih]

/-- Running a sequence runs the first part and goes on with its result and state. -/
theorem run_bind (serve : (q : I.Query) → σ → Except Fault (I.Answer q × σ))
    (script : Script I α) (f : α → Script I β) (state : σ) :
    (script >>= f).run serve state =
      match script.run serve state with
      | .error reason => .error reason
      | .ok (value, state) => (f value).run serve state := by
  induction script generalizing state with
  | done value => rfl
  | fault reason => rfl
  | ask q next ih =>
    simp only [ask_bind, run]
    split
    · rfl
    · exact ih _ _

/-- What holds of the second part for all results of the first holds of the sequence. -/
theorem Ensures.bind {allowed : (q : I.Query) → I.Answer q → Prop} {script : Script I α}
    {f : α → Script I β} {mid : α → Prop} {post : β → Prop} (first : script.Ensures allowed mid)
    (second : ∀ value, mid value → (f value).Ensures allowed post) :
    (script >>= f).Ensures allowed post := by
  induction script with
  | done value => exact second value first
  | fault reason => exact first.elim
  | ask q next ih => exact fun answer granted => ih answer (first answer granted)

end Script

end EvoSearch
