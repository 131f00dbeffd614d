/-
# No number is favoured

A draw of a number passes over the words that are not used, and ends in what the first used one
stands for. Which of two numbers it ends in is thus a matter of how many words stand for each, out
of all words of 64 bits.

The words that stand for an offset follow one another, since their products with the span do: from
the first product whose high half is the offset up to the last one whose low half is in the zone.
The zone is the span shifted to the front of a word, so it has room for as many products as the
shift multiplies the span by, whatever the offset. Here the shift is the count of the zero bits in
front of the span, to which the logarithm that it is computed by is related once.

What is counted are words. That a stream brings one word as often as another is not claimed.
-/

import Mathlib.Algebra.Order.Floor.Div
import Mathlib.Data.FinEnum
import Mathlib.Order.Interval.Finset.Nat
import EvoSearch.Proofs.Drawing

namespace EvoSearch

open Script EvoSearch.Random

namespace Random

/-! ## The words of an offset -/

section Numbers

variable {bits zeros span word offset : Nat}

theorem low_le_and_high_eq_iff {number half zone high : Nat} (positive : 0 < zone)
    (fits : zone ≤ half) :
    number % half ≤ zone - 1 ∧ number / half = high ↔
      high * half ≤ number ∧ number < high * half + zone := by
  have half_pos : 0 < half := Nat.lt_of_lt_of_le positive fits
  have split := Nat.div_add_mod' number half
  constructor
  · rintro ⟨low_le, rfl⟩
    omega
  · rintro ⟨reaches, stays⟩
    have high_eq : number / half = high := by
      apply Nat.div_eq_of_lt_le reaches
      rw [Nat.succ_mul]
      omega
    rw [high_eq] at split
    exact ⟨by omega, high_eq⟩

theorem ceilDiv_add_le_iff {total more : Nat} (positive : 0 < span) :
    total ⌈/⌉ span + more ≤ word ↔ total + span * more ≤ span * word := by
  rcases Nat.lt_or_ge word more with short | enough
  · have := Nat.mul_lt_mul_of_pos_left short positive
    omega
  · obtain ⟨rest, rfl⟩ := Nat.exists_eq_add_of_le' enough
    rw [Nat.add_le_add_iff_right, ceilDiv_le_iff_le_mul positive, Nat.mul_add,
      Nat.add_le_add_iff_right]

/-- The words that stand for an offset follow one another, from the first one whose product with the
span reaches it. -/
theorem offsetWithin?_eq_some_iff (positive : 0 < span) (fits : span * 2 ^ zeros ≤ 2 ^ bits) :
    offsetWithin? (span * 2 ^ zeros - 1) bits span word = some offset ↔
      offset * 2 ^ bits ⌈/⌉ span ≤ word ∧ word < offset * 2 ^ bits ⌈/⌉ span + 2 ^ zeros := by
  have zone_pos : 0 < span * 2 ^ zeros := Nat.mul_pos positive (Nat.two_pow_pos zeros)
  rw [offsetWithin?, Option.ite_none_right_eq_some, Option.some_inj, ceilDiv_le_iff_le_mul positive,
    ← Nat.not_le, ceilDiv_add_le_iff positive, Nat.not_le, Nat.mul_comm word]
  exact low_le_and_high_eq_iff zone_pos fits

/-- None of the words that stand for an offset below the span is too long. -/
theorem ceilDiv_add_le_of_lt (positive : 0 < span) (fits : span * 2 ^ zeros ≤ 2 ^ bits)
    (below : offset < span) : offset * 2 ^ bits ⌈/⌉ span + 2 ^ zeros ≤ 2 ^ bits := by
  rw [ceilDiv_add_le_iff positive]
  calc offset * 2 ^ bits + span * 2 ^ zeros
      ≤ offset * 2 ^ bits + 2 ^ bits := Nat.add_le_add_left fits _
    _ = (offset + 1) * 2 ^ bits := (Nat.succ_mul ..).symm
    _ ≤ span * 2 ^ bits := Nat.mul_le_mul_right _ below

theorem card_words_between {first behind : Nat} (inside : behind ≤ 2 ^ 64) :
    (Finset.univ.filter fun word : UInt64 => first ≤ word.toNat ∧ word.toNat < behind).card =
      behind - first := by
  have toNat_eq {number : Nat} (mem : number ∈ Finset.Ico first behind) :
      (UInt64.ofNat number).toNat = number :=
    UInt64.toNat_ofNat_of_lt' (Nat.lt_of_lt_of_le (Finset.mem_Ico.mp mem).2 inside)
  rw [← Nat.card_Ico]
  apply Finset.card_nbij' UInt64.toNat UInt64.ofNat
  · intro word mem
    exact Finset.mem_Ico.mpr (Finset.mem_filter.mp mem).2
  · intro number mem
    refine Finset.mem_filter.mpr ⟨Finset.mem_univ _, ?_⟩
    rw [toNat_eq mem]
    exact Finset.mem_Ico.mp mem
  · exact fun word _ => UInt64.ofNat_toNat
  · exact fun number mem => toNat_eq mem

end Numbers

section Zeros

variable {span : UInt64}

/-- The shift that is computed from the logarithm is the count of the zero bits. -/
theorem leadingZeros_eq_clz (nonzero : span ≠ 0) :
    leadingZeros 64 span.toNat = span.toBitVec.clz.toNat := by
  have some_bit : span.toBitVec ≠ 0 := fun zero => nonzero (UInt64.toBitVec_inj.mp zero)
  have clz_lt : span.toBitVec.clz.toNat < 64 :=
    BitVec.lt_def.mp (BitVec.clz_lt_iff_ne_zero.mpr some_bit)
  have lower : 2 ^ (63 - span.toBitVec.clz.toNat) ≤ span.toNat :=
    BitVec.two_pow_sub_clz_le_toNat_of_ne_zero (by decide) some_bit
  have upper : span.toNat < 2 ^ (64 - span.toBitVec.clz.toNat) :=
    BitVec.toNat_lt_two_pow_sub_clz
  have next_eq : 63 - span.toBitVec.clz.toNat + 1 = 64 - span.toBitVec.clz.toNat := by omega
  have log2_eq : span.toNat.log2 = 63 - span.toBitVec.clz.toNat := by
    rw [Nat.log2_eq_iff (Nat.ne_of_gt (toNat_pos_of_ne_zero nonzero)), next_eq]
    exact ⟨lower, upper⟩
  rw [leadingZeros, log2_eq]
  omega

theorem mul_two_pow_clz_le (span : UInt64) :
    span.toNat * 2 ^ span.toBitVec.clz.toNat ≤ 2 ^ 64 := by
  have clz_le : span.toBitVec.clz.toNat ≤ 64 := BitVec.le_def.mp BitVec.clz_le
  have upper : span.toNat ≤ 2 ^ (64 - span.toBitVec.clz.toNat) :=
    Nat.le_of_lt BitVec.toNat_lt_two_pow_sub_clz
  calc span.toNat * 2 ^ span.toBitVec.clz.toNat
      ≤ 2 ^ (64 - span.toBitVec.clz.toNat) * 2 ^ span.toBitVec.clz.toNat :=
        Nat.mul_le_mul_right _ upper
    _ = 2 ^ 64 := by rw [← Nat.pow_add, Nat.sub_add_cancel clz_le]

end Zeros

/-- How many words stand for each of `span` numbers: two to the power of the zero bits in front of
the span. If the span is that of all words, and so zero as a word, each of them has itself. -/
def wordsEach (span : UInt64) : Nat :=
  if span = 0 then 1 else 2 ^ span.toBitVec.clz.toNat

theorem wordOffset?_eq_some_iff {bound word offset : UInt64} :
    wordOffset? bound word = some offset ↔
      offset? 64 (bound.toNat + 1) word.toNat = some offset.toNat := by
  rw [← map_wordOffset?]
  exact (Option.map_injective fun _ _ => UInt64.toNat_inj.mp).eq_iff.symm

/-- As many words stand for the one offset as for the other. -/
theorem card_wordOffset? {bound offset : UInt64} (inside : offset ≤ bound) :
    (Finset.univ.filter fun word => wordOffset? bound word = some offset).card =
      wordsEach (bound + 1) := by
  rw [wordsEach]
  by_cases all : bound + 1 = 0
  · -- nothing is multiplied, and every word is an offset
    have itself (word : UInt64) : wordOffset? bound word = some word := if_pos all
    simp only [itself, Option.some_inj]
    rw [if_pos all, Finset.filter_eq', if_pos (Finset.mem_univ _), Finset.card_singleton]
  · have span_eq := Word.toNat_succ all
    have positive : 0 < (bound + 1).toNat := by omega
    have below : offset.toNat < (bound + 1).toNat := by
      rw [span_eq]
      exact Nat.lt_succ_of_le (UInt64.le_iff_toNat_le.mp inside)
    have fits := mul_two_pow_clz_le (bound + 1)
    simp only [wordOffset?_eq_some_iff, ← span_eq, offset?, zone, leadingZeros_eq_clz all,
      Nat.shiftLeft_eq, offsetWithin?_eq_some_iff positive fits]
    rw [if_neg all, card_words_between (ceilDiv_add_le_of_lt positive fits below),
      Nat.add_sub_cancel_left]

end Random

namespace Draw

/-! ## The first used word -/

/-- On a stream, `result` is what `read` makes of the first word that it uses. In front of that are
`unused` words, and behind it is the stream `after`. -/
inductive FirstUsed {α ρ : Type} [WordStream ρ] (read : UInt64 → Option α) :
    (unused : Nat) → ρ → α → ρ → Prop
  | used {stream : ρ} {result : α} :
      read (WordStream.next64 stream).1 = some result →
      FirstUsed read 0 stream result (WordStream.next64 stream).2
  | unused {unused : Nat} {stream after : ρ} {result : α} :
      read (WordStream.next64 stream).1 = none →
      FirstUsed read unused (WordStream.next64 stream).2 result after →
      FirstUsed read (unused + 1) stream result after

/-- What `f` makes of the offset up to `bound` that a word stands for, if the word is used. -/
def reading {α : Type} (bound : UInt64) (f : UInt64 → α) (word : UInt64) : Option α :=
  (wordOffset? bound word).map f

/-- A draw that ends in one of `results` and favours none of them. -/
structure IsUniform {α : Type} [DecidableEq α] (draw : Draw α) (read : UInt64 → Option α)
    (results : α → Prop) (words : Nat) : Prop where
  /-- It ends right behind the first word that is used, and in what is read off that word. -/
  run_iff {ρ : Type} [WordStream ρ] {patience : Nat} {stream after : ρ} {result : α} :
    draw.run patience stream = .ok (result, after) ↔
      ∃ unused < patience, FirstUsed read unused stream result after
  /-- It ends in nothing else but results. -/
  lands {ρ : Type} [WordStream ρ] {patience : Nat} {stream after : ρ} {result : α} :
    draw.run patience stream = .ok (result, after) → results result
  /-- Of all words, so many are read as the result, whichever it is. -/
  card_words {result : α} : results result →
    (Finset.univ.filter fun word => read word = some result).card = words

section Stream

variable {α ρ : Type} [WordStream ρ] {read : UInt64 → Option α} {f : UInt64 → α} {bound : UInt64}
  {patience unused : Nat} {stream after : ρ} {result : α}

theorem firstUsed_iff_of_some {found : α} (used : read (WordStream.next64 stream).1 = some found) :
    FirstUsed read unused stream result after ↔
      unused = 0 ∧ found = result ∧ (WordStream.next64 stream).2 = after := by
  constructor
  · intro first
    cases first with
    | used again => exact ⟨rfl, Option.some.inj (used.symm.trans again), rfl⟩
    | unused passed _ =>
      rw [used] at passed
      cases passed
  · rintro ⟨rfl, rfl, rfl⟩
    exact .used used

theorem firstUsed_iff_of_none (passed : read (WordStream.next64 stream).1 = none) :
    FirstUsed read unused stream result after ↔
      ∃ fewer, unused = fewer + 1 ∧
        FirstUsed read fewer (WordStream.next64 stream).2 result after := by
  constructor
  · intro first
    cases first with
    | used found =>
      rw [passed] at found
      cases found
    | unused _ first => exact ⟨_, rfl, first⟩
  · rintro ⟨fewer, rfl, first⟩
    exact .unused passed first

theorem FirstUsed.exists_read (first : FirstUsed read unused stream result after) :
    ∃ word, read word = some result := by
  induction first with
  | used found => exact ⟨_, found⟩
  | unused _ _ ih => exact ih

theorem fromWords64_succ : Choice.fromWords64 (patience + 1) bound stream =
    match wordOffset? bound (WordStream.next64 stream).1 with
    | some offset => .ok (offset, (WordStream.next64 stream).2)
    | none => Choice.fromWords64 patience bound (WordStream.next64 stream).2 := by
  rw [Choice.fromWords64, Choice.retry]
  obtain ⟨word, rest⟩ := WordStream.next64 stream
  dsimp only
  cases wordOffset? bound word <;> rfl

/-- What is drawn is drawn from the first word that is used. -/
theorem run_upTo_eq_ok_iff :
    (upTo bound >>= fun offset => pure (f offset)).run patience stream = .ok (result, after) ↔
      ∃ unused < patience, FirstUsed (reading bound f) unused stream result after := by
  rw [run_upTo_eq]
  -- a round takes one word, which decides whether it is the last
  induction patience generalizing stream with
  | zero =>
    constructor
    · rintro ⟨⟩
    · rintro ⟨_, ⟨⟩, _⟩
  | succ patience ih =>
    rw [fromWords64_succ]
    cases read : wordOffset? bound (WordStream.next64 stream).1 with
    | some offset =>
      have used : reading bound f (WordStream.next64 stream).1 = some (f offset) := by
        rw [reading, read, Option.map_some]
      simp only [firstUsed_iff_of_some used]
      constructor
      · intro run
        obtain ⟨rfl, rfl⟩ := Prod.mk.inj (Except.ok.inj run)
        exact ⟨0, Nat.succ_pos _, rfl, rfl, rfl⟩
      · rintro ⟨_, _, rfl, rfl, rfl⟩
        rfl
    | none =>
      have passed : reading bound f (WordStream.next64 stream).1 = none := by
        rw [reading, read, Option.map_none]
      simp only [ih, firstUsed_iff_of_none passed]
      constructor
      · rintro ⟨fewer, lt, first⟩
        exact ⟨fewer + 1, Nat.succ_lt_succ lt, fewer, rfl, first⟩
      · rintro ⟨_, lt, fewer, rfl, first⟩
        exact ⟨fewer, Nat.lt_of_succ_lt_succ lt, first⟩

end Stream

/-! ## Indices and ranges -/

section Range

variable {α : Type} {bound : UInt64} {f : UInt64 → α}

/-- A draw of an offset that is turned into results, a different one for each, is as uniform as the
words are. -/
theorem isUniform_upTo [DecidableEq α] {results : α → Prop} (injective : Function.Injective f)
    (results_iff : ∀ result, (∃ offset ≤ bound, f offset = result) ↔ results result) :
    IsUniform (upTo bound >>= fun offset => pure (f offset)) (reading bound f) results
      (wordsEach (bound + 1)) where
  run_iff := run_upTo_eq_ok_iff
  lands := by
    intro ρ _ patience stream after result run
    obtain ⟨_, _, first⟩ := run_upTo_eq_ok_iff.mp run
    obtain ⟨word, found⟩ := first.exists_read
    obtain ⟨offset, offset_eq, rfl⟩ := Option.map_eq_some_iff.mp found
    exact (results_iff _).mp ⟨offset, Choice.le_of_wordOffset? offset_eq, rfl⟩
  card_words := by
    intro result among
    obtain ⟨offset, inside, rfl⟩ := (results_iff result).mpr among
    have reading_iff (word : UInt64) :
        reading bound f word = some (f offset) ↔ wordOffset? bound word = some offset :=
      (Option.map_injective injective).eq_iff' rfl
    simp only [reading_iff]
    exact card_wordOffset? inside

theorem isUniform_between {lo hi : UInt64} (le : lo ≤ hi) :
    IsUniform (between lo hi) (reading (hi - lo) (lo + ·)) (fun number => lo ≤ number ∧ number ≤ hi)
      (wordsEach (hi - lo + 1)) := by
  rw [between, if_pos le]
  exact isUniform_upTo (fun _ _ same => (UInt64.add_right_inj lo).mp same)
    fun _ => exists_offset_iff le

theorem isUniform_index {size : UInt64} (positive : 0 < size) :
    IsUniform (index size.toNat) (reading (size - 1) UInt64.toNat) (· < size.toNat)
      (wordsEach size) := by
  have toNat_pos : 0 < size.toNat := UInt64.lt_iff_toNat_lt.mp positive
  have bound_eq : UInt64.ofNat (size.toNat - 1) = size - 1 := by
    rw [UInt64.ofNat_sub toNat_pos, UInt64.ofNat_toNat]
    rfl
  have pred_eq := Word.toNat_pred toNat_pos
  have below_iff (number : Nat) :
      (∃ offset ≤ size - 1, offset.toNat = number) ↔ number < size.toNat := by
    constructor
    · rintro ⟨offset, inside, rfl⟩
      rw [UInt64.le_iff_toNat_le, pred_eq] at inside
      exact Nat.lt_of_le_pred toNat_pos inside
    · intro below
      have number_eq : (UInt64.ofNat number).toNat = number :=
        UInt64.toNat_ofNat_of_lt' (Nat.lt_trans below size.toNat_lt)
      refine ⟨.ofNat number, ?_, number_eq⟩
      rw [UInt64.le_iff_toNat_le, pred_eq, number_eq]
      exact Nat.le_pred_of_lt below
  have uniform := isUniform_upTo (fun _ _ => UInt64.toNat_inj.mp) below_iff
  rw [UInt64.sub_add_cancel] at uniform
  rw [index, if_neg (Nat.ne_of_gt toNat_pos), bound_eq]
  exact uniform

end Range

/-- An index below a size, and a number of a range, are chosen uniformly, whatever the size and the
range. On every stream they are what the first used word is read as. Of all words, two to the power
of the zero bits in front of the span are read as each of them; if the span is that of all words,
one is. The sum that a number of a range is computed by does not wrap around. -/
theorem numbers_are_uniform :
    (∀ size : UInt64, 0 < size →
      IsUniform (index size.toNat) (reading (size - 1) UInt64.toNat) (· < size.toNat)
        (wordsEach size)) ∧
    ∀ lo hi : UInt64, lo ≤ hi →
      IsUniform (between lo hi) (reading (hi - lo) (lo + ·))
        (fun number => lo ≤ number ∧ number ≤ hi) (wordsEach (hi - lo + 1)) ∧
      ∀ word offset, wordOffset? (hi - lo) word = some offset →
        (lo + offset).toNat = lo.toNat + offset.toNat := by
  refine ⟨fun size positive => isUniform_index positive, fun lo hi le => ?_⟩
  refine ⟨isUniform_between le, fun word offset found => ?_⟩
  exact toNat_add_of_le le (Choice.le_of_wordOffset? found)

/-- Words of which the first is not used for three numbers, while the second is read as the one in
the middle. -/
def passedWords : Tape where
  word place := if place = 1 then 0x40000000 else if place = 3 then 0x80000000 else 0
  position := 0

/-- Each of three numbers has a quarter of all words, and each of all numbers has one. -/
theorem numbers_are_uniform_of_three :
    (∃ unused < 2, FirstUsed (reading 2 UInt64.toNat) unused passedWords 1 ⟨passedWords.word, 4⟩) ∧
    (between 2 4).run 2 passedWords = .ok (3, ⟨passedWords.word, 4⟩) ∧
    (2 : UInt64) ≤ 3 ∧ (3 : UInt64) ≤ 4 ∧
    (Finset.univ.filter fun word => reading 2 (2 + ·) word = some (3 : UInt64)).card = 2 ^ 62 ∧
    (Finset.univ.filter fun word =>
      reading 0xffffffffffffffff (0 + ·) word = some (7 : UInt64)).card = 1 ∧
    ∀ word offset, wordOffset? 1 word = some offset →
      (0xfffffffffffffffe + offset).toNat = 0xfffffffffffffffe + offset.toNat := by
  obtain ⟨indices, ranges⟩ := numbers_are_uniform
  have index_uniform := indices 3 (by decide)
  have three_uniform := (ranges 2 4 (by decide)).1
  have all_uniform := (ranges 0 0xffffffffffffffff (by decide)).1
  have sums := (ranges 0xfffffffffffffffe 0xffffffffffffffff (by decide)).2
  have drawn : (between 2 4).run 2 passedWords = .ok (3, ⟨passedWords.word, 4⟩) := rfl
  obtain ⟨two_le, le_four⟩ := three_uniform.lands drawn
  have each_three : wordsEach (4 - 2 + 1) = 2 ^ 62 := by decide
  have each_all : wordsEach (0xffffffffffffffff - 0 + 1) = 1 := by decide
  refine ⟨index_uniform.run_iff.mp rfl, drawn, two_le, le_four, ?_, ?_, sums⟩
  · exact (three_uniform.card_words ⟨two_le, le_four⟩).trans each_three
  · exact (all_uniform.card_words ⟨by decide, by decide⟩).trans each_all

end Draw

end EvoSearch
