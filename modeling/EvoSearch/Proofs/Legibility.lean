/-
# Texts that tell programs apart

What is shown of a program shows all of it. Whoever reads such a text from its front always sees
where a piece of it ends: an instruction ends with its bracket, and a numeral ends where something
else than a digit begins. So two texts that start with a piece each are the same only if the pieces
are the same, and the texts behind them are. Rows of pieces are taken off piece by piece, as long as
what ends the row is not mistaken for another piece.

Nothing is read back here. That the pieces can be told apart is enough.
-/

import EvoSearch.Program.Text
import EvoSearch.Store.Database

namespace EvoSearch

open Decimal

/-- Two texts that start with something written, with a text of some kind behind it, are the same
only if what is written is the same, and the texts behind it are. -/
def TellsApart {α : Type} (write : α → List Char) (Behind : List Char → Prop) : Prop :=
  ∀ item other rest tail, Behind rest → Behind tail → write item ++ rest = write other ++ tail →
    item = other ∧ rest = tail

namespace TellsApart

variable {α : Type} {write : α → List Char} {Behind Ends : List Char → Prop}

/-- Rows are told apart if their items are, unless the end of a row looks like a further item. -/
theorem flatMap (apart : TellsApart write Behind)
    (item_behind : ∀ item rest, Behind (write item ++ rest))
    (end_behind : ∀ rest, Ends rest → Behind rest)
    (end_ne : ∀ item rest tail, Ends tail → write item ++ rest ≠ tail) :
    TellsApart (List.flatMap write) Ends := by
  intro row
  -- behind an item stands another item of the row, or its end
  have row_behind (row : List α) {rest : List Char} (ends : Ends rest) :
      Behind (row.flatMap write ++ rest) := by
    cases row with
    | nil => exact end_behind rest ends
    | cons item row =>
      rw [List.flatMap_cons, List.append_assoc]
      exact item_behind item _
  induction row with
  | nil =>
    rintro (_ | ⟨other, others⟩) rest tail rest_ends tail_ends same
    · exact ⟨rfl, same⟩
    · rw [List.flatMap_cons, List.append_assoc] at same
      exact (end_ne other _ rest rest_ends same.symm).elim
  | cons item row ih =>
    rintro (_ | ⟨other, others⟩) rest tail rest_ends tail_ends same
    · rw [List.flatMap_cons, List.append_assoc] at same
      exact (end_ne item _ tail tail_ends same).elim
    · rw [List.flatMap_cons, List.flatMap_cons, List.append_assoc, List.append_assoc] at same
      obtain ⟨rfl, behind_same⟩ := apart item other _ _ (row_behind row rest_ends)
        (row_behind others tail_ends) same
      obtain ⟨rfl, rfl⟩ := ih others rest tail rest_ends tail_ends behind_same
      exact ⟨rfl, rfl⟩

end TellsApart

/-! ## Instructions -/

/-- A text that no numeral goes on into. -/
def EndsNumeral (rest : List Char) : Prop :=
  ∀ c ∈ rest.head?, Digit.ofChar? c = none

theorem endsNumeral_cons {c : Char} (other : Digit.ofChar? c = none) (rest : List Char) :
    EndsNumeral (c :: rest) := by
  rintro _ ⟨⟩
  exact other

theorem tellsApart_numeral : TellsApart numeral EndsNumeral := by
  intro n other rest tail rest_ends tail_ends same
  have spans := congrArg spanDigits same
  rw [numeral, numeral, spanDigits_append _ rest_ends, spanDigits_append _ tail_ends] at spans
  obtain ⟨digits_eq, rest_eq⟩ := Prod.mk.inj spans
  refine ⟨?_, rest_eq⟩
  rw [← value_digits n, digits_eq, value_digits]

theorem VariableKind.letter_inj {kind other : VariableKind} (same : kind.letter = other.letter) :
    kind = other := by
  revert same
  cases kind <;> cases other <;> decide

theorem tellsApart_address : TellsApart Address.chars EndsNumeral := by
  rintro ⟨kind, index⟩ ⟨other_kind, other_index⟩ rest tail rest_ends tail_ends same
  rw [Address.chars, Address.chars, List.cons_append, List.cons_append] at same
  obtain ⟨letter_eq, same⟩ := List.cons.inj same
  obtain ⟨number_eq, rest_eq⟩ := tellsApart_numeral _ _ _ _ rest_ends tail_ends same
  obtain rfl := VariableKind.letter_inj letter_eq
  obtain rfl := UInt8.toNat_inj.mp number_eq
  exact ⟨rfl, rest_eq⟩

/-- A text that closes a bracket. -/
def ClosesBracket (rest : List Char) : Prop :=
  ∃ tail, rest = ')' :: tail

/-- What is written of every input but the first one. -/
def Address.nextChars (address : Address) : List Char :=
  ',' :: ' ' :: address.chars

theorem listChars_cons (address : Address) (rest : List Address) :
    Address.listChars (address :: rest) = address.chars ++ rest.flatMap Address.nextChars := by
  induction rest generalizing address with
  | nil => simp [Address.listChars]
  | cons next rest ih => simp [Address.listChars, Address.nextChars, ih]

theorem tellsApart_nextChars :
    TellsApart (List.flatMap Address.nextChars) ClosesBracket := by
  have each : TellsApart Address.nextChars EndsNumeral := by
    intro address other rest tail rest_ends tail_ends same
    obtain ⟨_, same⟩ := List.cons.inj same
    obtain ⟨_, same⟩ := List.cons.inj same
    exact tellsApart_address _ _ _ _ rest_ends tail_ends same
  apply each.flatMap
  · intro address rest
    exact endsNumeral_cons (by decide) _
  · rintro _ ⟨rest, rfl⟩
    exact endsNumeral_cons (by decide) rest
  · rintro address rest _ ⟨tail, rfl⟩ same
    exact absurd (List.cons.inj same).1 (by decide)

theorem endsNumeral_flatMap_nextChars (addresses : List Address) {rest : List Char}
    (closes : ClosesBracket rest) : EndsNumeral (addresses.flatMap Address.nextChars ++ rest) := by
  obtain ⟨tail, rfl⟩ := closes
  cases addresses with
  | nil => exact endsNumeral_cons (by decide) tail
  | cons address addresses => exact endsNumeral_cons (by decide) _

theorem letter_ne (kind : VariableKind) : kind.letter ≠ ')' := by
  cases kind <;> decide

theorem tellsApart_listChars : TellsApart Address.listChars ClosesBracket := by
  rintro (_ | ⟨address, addresses⟩) (_ | ⟨other, others⟩) rest tail closes tail_closes same
  · exact ⟨rfl, same⟩
  · obtain ⟨rest, rfl⟩ := closes
    rw [listChars_cons] at same
    exact absurd (List.cons.inj same).1.symm (letter_ne other.kind)
  · obtain ⟨tail, rfl⟩ := tail_closes
    rw [listChars_cons] at same
    exact absurd (List.cons.inj same).1 (letter_ne address.kind)
  · rw [listChars_cons, listChars_cons, List.append_assoc, List.append_assoc] at same
    obtain ⟨rfl, others_same⟩ := tellsApart_address _ _ _ _
      (endsNumeral_flatMap_nextChars addresses closes)
      (endsNumeral_flatMap_nextChars others tail_closes) same
    obtain ⟨rfl, rfl⟩ := tellsApart_nextChars _ _ _ _ closes tail_closes others_same
    exact ⟨rfl, rfl⟩

/-- An instruction ends with its own bracket, so anything may stand behind it. -/
theorem tellsApart_instruction : TellsApart Instruction.chars fun _ => True := by
  rintro ⟨⟨code⟩, out, inputs⟩ ⟨⟨other_code⟩, other_out, other_inputs⟩ rest tail _ _ same
  have pieces (op : UInt8) (address : Address) (addresses : List Address) (rest : List Char) :
      Instruction.chars ⟨⟨op⟩, address, addresses⟩ ++ rest = address.chars ++ (" = op".toList ++
        (numeral op.toNat ++ '(' :: (Address.listChars addresses ++ ')' :: rest))) := by
    simp only [Instruction.chars, List.append_assoc, List.cons_append, List.nil_append]
  have bracket_ends (rest : List Char) : EndsNumeral ('(' :: rest) :=
    endsNumeral_cons (by decide) rest
  have blank_ends (rest : List Char) : EndsNumeral (" = op".toList ++ rest) :=
    endsNumeral_cons (by decide) _
  rw [pieces, pieces] at same
  obtain ⟨out_eq, op_same⟩ := tellsApart_address _ _ _ _ (blank_ends _) (blank_ends _) same
  obtain ⟨code_eq, inputs_same⟩ := tellsApart_numeral _ _ _ _ (bracket_ends _) (bracket_ends _)
    (List.append_cancel_left op_same)
  obtain ⟨inputs_eq, rest_same⟩ := tellsApart_listChars _ _ _ _ ⟨_, rfl⟩ ⟨_, rfl⟩
    (List.cons.inj inputs_same).2
  rw [out_eq, UInt8.toNat_inj.mp code_eq, inputs_eq]
  exact ⟨rfl, (List.cons.inj rest_same).2⟩

/-! ## Programs -/

namespace Program

/-- The line of an instruction. -/
def lineChars (instruction : Instruction) : List Char :=
  ' ' :: ' ' :: instruction.chars ++ ['\n']

/-- What is listed of an instruction. -/
def entryChars (instruction : Instruction) : List Char :=
  instruction.chars ++ [';']

theorem tellsApart_lineChars : TellsApart lineChars fun _ => True := by
  intro instruction other rest tail _ _ same
  simp only [lineChars, List.cons_append, List.append_assoc] at same
  obtain ⟨_, same⟩ := List.cons.inj same
  obtain ⟨_, same⟩ := List.cons.inj same
  obtain ⟨instruction_eq, rest_same⟩ := tellsApart_instruction _ _ _ _ trivial trivial same
  exact ⟨instruction_eq, (List.cons.inj rest_same).2⟩

theorem tellsApart_entryChars : TellsApart entryChars fun _ => True := by
  intro instruction other rest tail _ _ same
  rw [entryChars, entryChars, List.append_assoc, List.append_assoc] at same
  obtain ⟨instruction_eq, rest_same⟩ := tellsApart_instruction _ _ _ _ trivial trivial same
  exact ⟨instruction_eq, (List.cons.inj rest_same).2⟩

/-- A text without a further line of the part: the head of the next part, or nothing. -/
def EndsPart (rest : List Char) : Prop :=
  rest.head? ≠ some ' '

theorem tellsApart_lines : TellsApart (List.flatMap lineChars) EndsPart := by
  apply tellsApart_lineChars.flatMap
  · exact fun _ _ => trivial
  · exact fun _ _ => trivial
  · rintro instruction rest _ ends rfl
    exact ends rfl

/-- Listings are told apart only with nothing behind them. -/
theorem tellsApart_entries : TellsApart (List.flatMap entryChars) (· = []) := by
  apply tellsApart_entryChars.flatMap
  · exact fun _ _ => trivial
  · exact fun _ _ => trivial
  · rintro instruction rest _ rfl same
    rw [entryChars, List.append_assoc] at same
    exact List.cons_ne_nil _ _ (List.append_eq_nil_iff.mp same).2

/-- Below the same head, a part is told apart by its lines. -/
theorem tellsApart_partChars (part : Section) : TellsApart (partChars part) EndsPart := by
  intro row other rest tail rest_ends tail_ends same
  have pieces (row : List Instruction) (rest : List Char) : partChars part row ++ rest =
      ("def ".toList ++ part.name.toList ++ "():\n".toList) ++
        (row.flatMap lineChars ++ rest) :=
    List.append_assoc ..
  rw [pieces, pieces] at same
  exact tellsApart_lines _ _ _ _ rest_ends tail_ends (List.append_cancel_left same)

theorem endsPart_partChars (part : Section) (row : List Instruction) (rest : List Char) :
    EndsPart (partChars part row ++ rest) := by
  rintro ⟨⟩

theorem endsPart_nil : EndsPart [] := by
  rintro ⟨⟩

theorem eq_of_part_eq {program other : Program}
    (same : ∀ part, program.part part = other.part part) : program = other := by
  obtain ⟨setup, predict, learn⟩ := program
  obtain ⟨other_setup, other_predict, other_learn⟩ := other
  obtain rfl : setup = other_setup := same .setup
  obtain rfl : predict = other_predict := same .predict
  obtain rfl : learn = other_learn := same .learn
  rfl

theorem chars_eq (program : Program) : program.chars =
    partChars .setup program.setup ++ (partChars .predict program.predict ++
      (partChars .learn program.learn ++ [])) :=
  rfl

theorem toText_inj {program other : Program} (same : program.toText = other.toText) :
    program = other := by
  have chars_same : program.chars = other.chars := String.ofList_injective same
  rw [chars_eq, chars_eq] at chars_same
  obtain ⟨setup_eq, predict_same⟩ := tellsApart_partChars .setup _ _ _ _
    (endsPart_partChars _ _ _) (endsPart_partChars _ _ _) chars_same
  obtain ⟨predict_eq, learn_same⟩ := tellsApart_partChars .predict _ _ _ _
    (endsPart_partChars _ _ _) (endsPart_partChars _ _ _) predict_same
  obtain ⟨learn_eq, _⟩ := tellsApart_partChars .learn _ _ _ _
    endsPart_nil endsPart_nil learn_same
  apply eq_of_part_eq
  intro part
  cases part with
  | setup => exact setup_eq
  | predict => exact predict_eq
  | learn => exact learn_eq

/-- A listing tells what the part consists of. -/
theorem listing_inj {program other : Program} {part : Section}
    (same : program.listing part = other.listing part) : program.part part = other.part part := by
  have entries_same : (program.part part).flatMap entryChars =
      (other.part part).flatMap entryChars := String.ofList_injective same
  exact (tellsApart_entries _ _ [] [] rfl rfl (congrArg (· ++ []) entries_same)).1

/-- The texts of two programs are the same only if the programs are, wherever such a text is kept:
in a report, among the results, or as the listings of the three parts in a table of programs. Every
listing tells a part of its own. -/
theorem texts_tell_apart (program other : Program) :
    (program.toText = other.toText ↔ program = other) ∧
    (∀ part, program.listing part = other.listing part ↔ program.part part = other.part part) ∧
    ((∀ part, program.listing part = other.listing part) ↔ program = other) ∧
    ∀ (run foreign : Int64) (fitness further : Float) (individuals more : Nat)
      (diversity spread : Float),
      let row := Store.ProgramRow.ofScored run ⟨program, fitness⟩
      let next := Store.ProgramRow.ofScored foreign ⟨other, further⟩
      let result := Store.ResultRow.ofScored run ⟨program, fitness⟩
      let rival := Store.ResultRow.ofScored foreign ⟨other, further⟩
      let record := DiversityRecord.describe run individuals program diversity fitness
      let report := DiversityRecord.describe foreign more other spread further
      (row.setup = next.setup ∧ row.predict = next.predict ∧ row.learn = next.learn ↔
        program = other) ∧
      (result.text = rival.text ↔ program = other) ∧
      (record.program = report.program ↔ program = other) := by
  have text_iff : program.toText = other.toText ↔ program = other :=
    ⟨toText_inj, congrArg toText⟩
  have listing_iff (part : Section) :
      program.listing part = other.listing part ↔ program.part part = other.part part := by
    refine ⟨listing_inj, fun same => ?_⟩
    rw [listing, listing, same]
  have listings_iff : (∀ part, program.listing part = other.listing part) ↔ program = other := by
    constructor
    · exact fun same => eq_of_part_eq fun part => (listing_iff part).mp (same part)
    · rintro rfl part
      rfl
  refine ⟨text_iff, listing_iff, listings_iff, ?_⟩
  intro run foreign fitness further individuals more diversity spread
  refine ⟨?_, text_iff, text_iff⟩
  rw [← listings_iff]
  constructor
  · rintro ⟨setup_eq, predict_eq, learn_eq⟩ part
    cases part with
    | setup => exact Option.some.inj setup_eq
    | predict => exact Option.some.inj predict_eq
    | learn => exact Option.some.inj learn_eq
  · intro same
    exact ⟨congrArg some (same .setup), congrArg some (same .predict), congrArg some (same .learn)⟩

end Program

end EvoSearch
