/-
# What chance can bring

A draw asks for numbers in a range, and a stream of words brings nothing else: the part of the word
that is used lies below the span. So a draw that is safe for all numbers in range is safe on every
stream, and the only thing that can go wrong there is that a redraw loop does not come to an end.

The lemmas on the single draws say when they have a range at all, and what they bring then.
-/

import EvoSearch.Act
import EvoSearch.Proofs.Dialogue

namespace EvoSearch

open Script EvoSearch.Random

namespace Choice

variable {α ρ : Type}

/-- What a retried attempt brings, it has brought at one point. -/
theorem exists_of_retry {attempt : ρ → Except Fault (Option α × ρ)} {patience : Nat}
    {stream after : ρ} {found : α} (served : retry attempt patience stream = .ok (found, after)) :
    ∃ before, attempt before = .ok (some found, after) := by
  induction patience generalizing stream with
  | zero => cases served
  | succ patience ih =>
    rw [retry] at served
    split at served
    · cases served
    · next attempted =>
      obtain ⟨rfl, rfl⟩ := Prod.mk.inj (Except.ok.inj served)
      exact ⟨stream, attempted⟩
    · exact ih served

/-- Retrying fails if the attempt does, or if patience comes to an end. -/
theorem retry_eq_error {attempt : ρ → Except Fault (Option α × ρ)}
    (stalls : ∀ stream reason, attempt stream = .error reason → reason = .stalled)
    {patience : Nat} {stream : ρ} {reason : Fault}
    (faulty : retry attempt patience stream = .error reason) : reason = .stalled := by
  induction patience generalizing stream with
  | zero => exact (Except.error.inj faulty).symm
  | succ patience ih =>
    rw [retry] at faulty
    split at faulty
    · next attempted =>
      obtain rfl := Except.error.inj faulty
      exact stalls stream _ attempted
    · cases faulty
    · exact ih faulty

/-- Numbers that are drawn until one hits are numbers of the draw. -/
theorem of_firstOf {patience : Nat} {hit : UInt64 → Bool}
    {draw : ρ → Except Fault (UInt64 × ρ)} {stream after : ρ} {answer : UInt64}
    (served : firstOf patience hit draw stream = .ok (answer, after)) :
    hit answer = true ∧ ∃ before after, draw before = .ok (answer, after) := by
  obtain ⟨before, attempted⟩ := exists_of_retry served
  split at attempted
  · cases attempted
  · next number behind drawn =>
    obtain ⟨same, _⟩ := Prod.mk.inj (Except.ok.inj attempted)
    split at same
    · next hits =>
      obtain rfl := Option.some.inj same
      exact ⟨hits, before, behind, drawn⟩
    · cases same

theorem stalled_of_firstOf {patience : Nat} {hit : UInt64 → Bool}
    {draw : ρ → Except Fault (UInt64 × ρ)}
    (stalls : ∀ stream reason, draw stream = .error reason → reason = .stalled) {stream : ρ}
    {reason : Fault} (faulty : firstOf patience hit draw stream = .error reason) :
    reason = .stalled := by
  apply retry_eq_error ?_ faulty
  intro before cause attempted
  split at attempted
  · next drawn =>
    obtain rfl := Except.error.inj attempted
    exact stalls before _ drawn
  · cases attempted

theorem le_of_wordOffset? {bound word offset : UInt64}
    (found : wordOffset? bound word = some offset) : offset ≤ bound := by
  have counted : offset? 64 (bound.toNat + 1) word.toNat = some offset.toNat := by
    rw [← map_wordOffset?, found]
    rfl
  have below := offsetWithin?_lt (Nat.succ_pos _) word.toNat_lt counted
  exact UInt64.le_iff_toNat_le.mpr (Nat.le_of_lt_succ below)

/-- The offsets that words stand for, whatever the zone. -/
theorem toNat_le_of_map_offsetWithin? {last bits bound word : Nat} {answer : UInt64}
    (small : word < Nat.pow 2 bits)
    (found : (offsetWithin? last bits (bound + 1) word).map UInt64.ofNat = some answer) :
    answer.toNat ≤ bound := by
  obtain ⟨offset, offset_eq, rfl⟩ := Option.map_eq_some_iff.mp found
  have below := offsetWithin?_lt (Nat.succ_pos _) small offset_eq
  rw [UInt64.toNat_ofNat']
  exact Nat.le_trans (Nat.mod_le _ _) (Nat.le_of_lt_succ below)

variable [WordStream ρ]

theorem le_of_fromWords64 {patience : Nat} {bound answer : UInt64} {stream after : ρ}
    (served : fromWords64 patience bound stream = .ok (answer, after)) : answer ≤ bound := by
  obtain ⟨before, attempted⟩ := exists_of_retry served
  exact le_of_wordOffset? (Prod.mk.inj (Except.ok.inj attempted)).1

theorem le_of_fromMostWords32 {patience : Nat} {bound : UInt32} {answer : UInt64}
    {stream after : ρ} (served : fromMostWords32 patience bound stream = .ok (answer, after)) :
    answer.toNat ≤ bound.toNat := by
  obtain ⟨before, attempted⟩ := exists_of_retry served
  exact toNat_le_of_map_offsetWithin? (UInt32.toNat_lt _) (Prod.mk.inj (Except.ok.inj attempted)).1

theorem le_of_fromMostWords64 {patience : Nat} {bound answer : UInt64} {stream after : ρ}
    (served : fromMostWords64 patience bound stream = .ok (answer, after)) : answer ≤ bound := by
  obtain ⟨before, attempted⟩ := exists_of_retry served
  exact UInt64.le_iff_toNat_le.mpr <|
    toNat_le_of_map_offsetWithin? (UInt64.toNat_lt _) (Prod.mk.inj (Except.ok.inj attempted)).1

/-- A stream of words answers a question by what it admits. -/
theorem admits_of_serve {patience : Nat} {choice : Choice} {answer : UInt64} {stream after : ρ}
    (served : choice.serve patience stream = .ok (answer, after)) : choice.Admits answer := by
  cases choice with
  | upTo bound => exact le_of_fromWords64 served
  | upTo32 bound =>
    obtain ⟨before, attempted⟩ := exists_of_retry served
    exact toNat_le_of_map_offsetWithin? (UInt32.toNat_lt _)
      (Prod.mk.inj (Except.ok.inj attempted)).1
  | firstHit bound hit =>
    obtain ⟨hits, _, _, drawn⟩ := of_firstOf served
    exact ⟨le_of_fromWords64 drawn, hits⟩
  | firstHit32 bound hit =>
    obtain ⟨hits, _, _, drawn⟩ := of_firstOf served
    exact ⟨le_of_fromMostWords32 drawn, hits⟩
  | firstHit64 bound hit =>
    obtain ⟨hits, _, _, drawn⟩ := of_firstOf served
    exact ⟨le_of_fromMostWords64 drawn, hits⟩

/-- A stream of words fails to answer only if a redraw loop does not come to an end. -/
theorem stalled_of_serve {patience : Nat} {choice : Choice} {stream : ρ} {reason : Fault}
    (faulty : choice.serve patience stream = .error reason) : reason = .stalled := by
  cases choice with
  | upTo bound => exact retry_eq_error (by rintro _ _ ⟨⟩) faulty
  | upTo32 bound => exact retry_eq_error (by rintro _ _ ⟨⟩) faulty
  | firstHit bound hit =>
    exact stalled_of_firstOf (fun _ _ => retry_eq_error (by rintro _ _ ⟨⟩)) faulty
  | firstHit32 bound hit =>
    exact stalled_of_firstOf (fun _ _ => retry_eq_error (by rintro _ _ ⟨⟩)) faulty
  | firstHit64 bound hit =>
    exact stalled_of_firstOf (fun _ _ => retry_eq_error (by rintro _ _ ⟨⟩)) faulty

end Choice

namespace Draw

theorem toNat_le_of_le_ofNat {answer : UInt64} {bound : Nat} (le : answer ≤ UInt64.ofNat bound) :
    answer.toNat ≤ bound := by
  have wrapped := UInt64.le_iff_toNat_le.mp le
  rw [UInt64.toNat_ofNat'] at wrapped
  exact Nat.le_trans wrapped (Nat.mod_le _ _)

theorem ensures_index {size : Nat} (positive : 0 < size) :
    (index size).Ensures Choice.Admits fun number => number < size := by
  rw [index, if_neg (Nat.pos_iff_ne_zero.mp positive)]
  intro answer admitted
  have le := toNat_le_of_le_ofNat admitted
  exact Nat.lt_of_le_pred positive le

theorem ensures_indexUntil {size : Nat} {hit : Nat → Bool} (positive : 0 < size) :
    (indexUntil size hit).Ensures Choice.Admits fun number =>
      number < size ∧ hit number = true := by
  rw [indexUntil, if_neg (Nat.pos_iff_ne_zero.mp positive)]
  rintro answer ⟨admitted, hits⟩
  have le := toNat_le_of_le_ofNat admitted
  exact ⟨Nat.lt_of_le_pred positive le, hits⟩

/-- The end of a range can be counted by a word, and so can whatever stands in front of it. -/
theorem toNat_add_of_le {lo hi offset : UInt64} (le : lo ≤ hi) (inside : offset ≤ hi - lo) :
    (lo + offset).toNat = lo.toNat + offset.toNat := by
  have offset_le := UInt64.le_iff_toNat_le.mp inside
  rw [UInt64.toNat_sub_of_le _ _ le] at offset_le
  have lo_le := UInt64.le_iff_toNat_le.mp le
  have hi_lt : hi.toNat < 18446744073709551616 := hi.toNat_lt
  rw [UInt64.toNat_add, Nat.mod_eq_of_lt (by omega)]

/-- The numbers of a range are those at an offset up to its length. -/
theorem exists_offset_iff {lo hi number : UInt64} (le : lo ≤ hi) :
    (∃ offset ≤ hi - lo, lo + offset = number) ↔ lo ≤ number ∧ number ≤ hi := by
  constructor
  · rintro ⟨offset, inside, rfl⟩
    have offset_le := UInt64.le_iff_toNat_le.mp inside
    rw [UInt64.toNat_sub_of_le _ _ le] at offset_le
    have lo_le := UInt64.le_iff_toNat_le.mp le
    rw [UInt64.le_iff_toNat_le, UInt64.le_iff_toNat_le, toNat_add_of_le le inside]
    omega
  · rintro ⟨lo_le, le_hi⟩
    refine ⟨number - lo, ?_, by rw [UInt64.add_comm, UInt64.sub_add_cancel]⟩
    rw [UInt64.le_iff_toNat_le, UInt64.toNat_sub_of_le _ _ lo_le, UInt64.toNat_sub_of_le _ _ le]
    exact Nat.sub_le_sub_right (UInt64.le_iff_toNat_le.mp le_hi) _

theorem ensures_between {lo hi : UInt64} (le : lo ≤ hi) :
    (between lo hi).Ensures Choice.Admits fun number => lo ≤ number ∧ number ≤ hi := by
  rw [between, if_pos le]
  intro offset admitted
  exact (exists_offset_iff le).mp ⟨offset, admitted, rfl⟩

end Draw

/-- The answers that an act has to reckon with: chance keeps to the range that is asked for, while
the store and the clock may say anything. -/
def Effect.Admits : (effect : Effect) → effect.Answer → Prop
  | chance choice, answer => choice.Admits answer
  | store _, _ => True
  | clock, _ => True

theorem Draw.ensures_act {α : Type} {draw : Draw α} {post : α → Prop}
    (ensures : draw.Ensures Choice.Admits post) : draw.act.Ensures Effect.Admits post :=
  ensures.lift fun _ _ granted => granted

namespace Act

theorem ensures_now : now.Ensures Effect.Admits fun _ => True :=
  fun _ _ => trivial

/-- A store and a clock that answer by what they have been through. -/
structure World (σ : Type) where
  reply : (call : Store.Call) → σ → Except Store.Error call.Reply × σ
  time : σ → Nat × σ

variable {α σ ρ : Type} [WordStream ρ] {act : Act α} {post : α → Prop}

/-- Answer a question of an act: chance from a stream of words, and all else from a world. -/
def serveIn (patience : Nat) (world : World σ) :
    (effect : Effect) → ρ × σ → Except Fault (effect.Answer × ρ × σ)
  | .chance choice, (words, state) =>
    match choice.serve patience words with
    | .error reason => .error reason
    | .ok (answer, words) => .ok (answer, words, state)
  | .store call, (words, state) =>
    let (reply, state) := world.reply call state
    .ok (reply, words, state)
  | .clock, (words, state) =>
    let (time, state) := world.time state
    .ok (time, words, state)

/-- An act that is safe for all numbers in range is safe on every stream and in every world, unless
a redraw loop does not come to an end. -/
theorem stalled_of_run (ensures : act.Ensures Effect.Admits post) {patience : Nat}
    {world : World σ} {state : ρ × σ} {reason : Fault}
    (faulty : Script.run (serveIn patience world) act state = .error reason) :
    reason = .stalled := by
  obtain ⟨effect, ⟨words, state⟩, unserved⟩ := ensures.exists_of_run_eq_error (by
    rintro (choice | call | _) ⟨words, state⟩ answer after served
    · rw [serveIn] at served
      split at served
      · cases served
      · next given behind choice_served =>
        obtain ⟨rfl, _⟩ := Prod.mk.inj (Except.ok.inj served)
        exact Choice.admits_of_serve choice_served
    · trivial
    · trivial) faulty
  cases effect with
  | chance choice =>
    rw [serveIn] at unserved
    split at unserved
    · next choice_unserved =>
      obtain rfl := Except.error.inj unserved
      exact Choice.stalled_of_serve choice_unserved
    · cases unserved
  | store call => cases unserved
  | clock => cases unserved

end Act

end EvoSearch
