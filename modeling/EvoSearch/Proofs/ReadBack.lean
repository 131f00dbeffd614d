/-
# What is written can be read back

The compact text of a value of JSON is read as that value, whatever the value is: numbers of any
size and form, strings with any characters, lists and objects nested to any depth. The reader takes
what a value has written off the front of a text and leaves what stands behind it, as long as that
does not look like more of a number.
-/

import EvoSearch.Json.Printer
import EvoSearch.Json.Reader

namespace EvoSearch.Decimal

/-- The row of a number starts with a zero only where the number is zero. -/
theorem exists_first_digit {n : Nat} (positive : 0 < n) :
    ∃ first row, digits n = first :: row ∧ first.val ≠ 0 := by
  induction n using digits.induct with
  | case1 n small =>
    refine ⟨Fin.ofNat 10 n, [], by rw [digits, if_pos small], ?_⟩
    rw [Fin.val_ofNat, Nat.mod_eq_of_lt small]
    exact Nat.ne_of_gt positive
  | case2 n large ih =>
    obtain ⟨first, row, row_eq, nonzero⟩ := ih (by omega)
    exact ⟨first, row ++ [Fin.ofNat 10 n], by rw [digits, if_neg large, row_eq]; rfl, nonzero⟩

end EvoSearch.Decimal

namespace EvoSearch.Json

open Decimal

/-- A text starts with a token, and goes on with `rest`. -/
def Opens (text : List Char) (token : Token) (rest : List Char) : Prop :=
  ∃ c tail, text = c :: tail ∧ isBlank c = false ∧ token? c tail = some (token, rest)

theorem readFrom_of_opens {reading next : Reading} {text rest : List Char} {token : Token}
    (opens : Opens text token rest) (taken : reading.step token = some next) :
    readFrom reading text = readFrom next rest := by
  obtain ⟨c, tail, rfl, visible, found⟩ := opens
  rw [readFrom, if_neg (by rw [visible]; decide)]
  split
  · next missed =>
    rw [found] at missed
    cases missed
  · next found' =>
    rw [found] at found'
    cases found'
    rw [taken]

/-! ## Strings -/

theorem hexValue?_hexDigit {n : Nat} (small : n < 16) : hexValue? (hexDigit n) = some n := by
  have all : ∀ digit : Fin 16, hexValue? (hexDigit digit) = some digit.val := by decide
  exact all ⟨n, small⟩

theorem stringBody_of_escaped? {front : List Char} {intact : Bool} {text rest : List Char}
    {c : Char} (found : escaped? text = some (some c, rest)) :
    stringBody front intact ('\\' :: text) = stringBody (c :: front) intact rest := by
  rw [stringBody, if_neg (by decide), if_pos rfl]
  split
  · next missed =>
    rw [found] at missed
    cases missed
  · next found' =>
    rw [found] at found'
    cases found'
    rfl

theorem stringBody_of_plain {front : List Char} {intact : Bool} {rest : List Char} {c : Char}
    (quote_ne : c ≠ '"') (backslash_ne : c ≠ '\\') (visible : ¬ c.toNat < 32) :
    stringBody front intact (c :: rest) = stringBody (c :: front) intact rest := by
  rw [stringBody, if_neg quote_ne, if_neg backslash_ne, if_neg visible]

/-- A control character is read back from its number. -/
theorem escaped?_control {c : Char} (control : c.toNat < 32) (rest : List Char) :
    escaped? ('u' :: '0' :: '0' :: hexDigit (c.toNat / 16) :: hexDigit (c.toNat % 16) :: rest) =
      some (some c, rest) := by
  have unit_eq : unit? ('0' :: '0' :: hexDigit (c.toNat / 16) :: hexDigit (c.toNat % 16) :: rest) =
      some (c.toNat, rest) := by
    have zero : hexValue? '0' = some 0 := by decide
    simp only [unit?, hexUnit?, zero, hexValue?_hexDigit (show c.toNat / 16 < 16 by omega),
      hexValue?_hexDigit (show c.toNat % 16 < 16 by omega), Option.bind_eq_bind, Option.bind_some,
      Option.pure_def, Option.map_some]
    congr 2
    omega
  rw [escaped?, if_pos rfl, unit_eq]
  simp only [decide_eq_false (show ¬ 0xd800 ≤ c.toNat by omega),
    decide_eq_false (show ¬ 0xdc00 ≤ c.toNat by omega), Bool.false_and, Bool.false_eq_true,
    if_false, Char.ofNat_toNat]

/-- A character of a string is read back from the way it is written. -/
theorem stringBody_escape (front : List Char) (intact : Bool) (c : Char) (rest : List Char) :
    stringBody front intact (escape c ++ rest) = stringBody (c :: front) intact rest := by
  unfold escape
  split
  · next is_quote => subst is_quote; exact stringBody_of_escaped? rfl
  split
  · next is_backslash => subst is_backslash; exact stringBody_of_escaped? rfl
  split
  · next is_newline => subst is_newline; exact stringBody_of_escaped? rfl
  split
  · next is_return => subst is_return; exact stringBody_of_escaped? rfl
  split
  · next is_tab => subst is_tab; exact stringBody_of_escaped? rfl
  split
  · next is_backspace =>
    rw [← Char.ofNat_toNat c, is_backspace]
    exact stringBody_of_escaped? rfl
  split
  · next is_feed =>
    rw [← Char.ofNat_toNat c, is_feed]
    exact stringBody_of_escaped? rfl
  split
  · next control => exact stringBody_of_escaped? (escaped?_control control rest)
  · next visible => exact stringBody_of_plain ‹_› ‹_› visible

theorem stringBody_flatMap_escape (front : List Char) (row rest : List Char) :
    stringBody front true (row.flatMap escape ++ '"' :: rest) =
      some (some (String.ofList (front.reverse ++ row)), rest) := by
  induction row generalizing front with
  | nil => rw [List.flatMap_nil, List.nil_append, stringBody, if_pos rfl, List.append_nil]; rfl
  | cons c row ih =>
    rw [List.flatMap_cons, List.append_assoc, stringBody_escape, ih, List.reverse_cons,
      List.append_assoc, List.singleton_append]

theorem opens_quote (s : String) (rest : List Char) :
    Opens (quote s ++ rest) (.string (some s)) rest := by
  refine ⟨'"', s.toList.flatMap escape ++ '"' :: rest, by simp [quote], by decide, ?_⟩
  rw [token?, show mark? '"' = none by decide]
  simp [stringBody_flatMap_escape]

/-- Half of a surrogate pair leaves a string without content. -/
theorem opens_garbledText (rest : List Char) : Opens (garbledText ++ rest) (.string none) rest := by
  refine ⟨'"', '\\' :: 'u' :: 'd' :: '8' :: '0' :: '0' :: '"' :: rest, rfl, by decide, ?_⟩
  have lost : escaped? ('u' :: 'd' :: '8' :: '0' :: '0' :: '"' :: rest) =
      some (none, '"' :: rest) := by
    cases rest <;> rfl
  have body : stringBody [] true ('\\' :: 'u' :: 'd' :: '8' :: '0' :: '0' :: '"' :: rest) =
      some (none, rest) := by
    rw [stringBody, if_neg (by decide), if_pos rfl]
    split
    · next missed =>
      rw [lost] at missed
      cases missed
    · next found =>
      rw [lost] at found
      cases found
      rw [stringBody, if_pos rfl]
      rfl
  rw [token?, show mark? '"' = none by decide]
  simp [body]

/-! ## Numbers -/

/-- What may stand behind a number: nothing that could belong to it. -/
def EndsNumber (rest : List Char) : Prop :=
  ∀ c ∈ rest.head?, Digit.ofChar? c = none ∧ c ≠ '.' ∧ c ≠ 'e' ∧ c ≠ 'E'

theorem endsNumber_nil : EndsNumber [] := by
  intro c mem
  cases mem

theorem endsNumber_cons {c : Char} {rest : List Char}
    (foreign : Digit.ofChar? c = none ∧ c ≠ '.' ∧ c ≠ 'e' ∧ c ≠ 'E') : EndsNumber (c :: rest) := by
  intro c' mem
  cases mem
  exact foreign

theorem hasSpareZero_digits (n : Nat) : hasSpareZero (digits n) = false := by
  obtain rfl | positive := Nat.eq_zero_or_pos n
  · rw [digits, if_pos (by decide)]
    rfl
  · obtain ⟨first, row, row_eq, nonzero⟩ := exists_first_digit positive
    rw [row_eq]
    cases row with
    | nil => rfl
    | cons => simpa [hasSpareZero] using nonzero

/-- The text of the digits behind the point. -/
def fractionText (fraction : List Digit) : List Char :=
  if fraction.isEmpty then [] else '.' :: chars fraction

/-- The text of a power of ten. -/
def exponentText : Option Int → List Char
  | none => []
  | some exponent => 'e' :: (if exponent < 0 then '-' else '+') :: numeral exponent.natAbs

theorem fraction?_fractionText {fraction : List Digit} {rest : List Char}
    (ends : ∀ c ∈ rest.head?, Digit.ofChar? c = none ∧ c ≠ '.') :
    fraction? (fractionText fraction ++ rest) = some (fraction, rest) := by
  cases fraction with
  | nil =>
    cases rest with
    | nil => rfl
    | cons c rest =>
      have not_point : c ≠ '.' := (ends c rfl).2
      simp only [fractionText, List.isEmpty_nil, if_true, List.nil_append]
      unfold fraction?
      split
      · next point => exact absurd (List.cons.inj point).1 not_point
      · rfl
  | cons digit row =>
    simp only [fractionText, List.isEmpty_cons, Bool.false_eq_true, if_false, List.cons_append,
      fraction?]
    rw [spanDigits_append _ fun c mem => (ends c mem).1]
    rfl

theorem exponentSign_sign (negative : Bool) (rest : List Char) :
    exponentSign ((if negative then '-' else '+') :: rest) = (negative, rest) := by
  cases negative <;> rfl

theorem exponent?_exponentText {exponent : Option Int} {rest : List Char} (ends : EndsNumber rest) :
    exponent? (exponentText exponent ++ rest) = some (exponent, rest) := by
  cases exponent with
  | none =>
    cases rest with
    | nil => rfl
    | cons c rest =>
      obtain ⟨-, -, not_small, not_large⟩ := ends c rfl
      simp [exponentText, exponent?, not_small, not_large]
  | some exponent =>
    have sign_eq : exponentSign ((if exponent < 0 then '-' else '+') ::
        (numeral exponent.natAbs ++ rest)) =
          (decide (exponent < 0), numeral exponent.natAbs ++ rest) := by
      have := exponentSign_sign (decide (exponent < 0)) (numeral exponent.natAbs ++ rest)
      simpa using this
    have not_empty : (digits exponent.natAbs).isEmpty = false := by
      simpa using digits_ne_nil exponent.natAbs
    have value_eq : (if exponent < 0 then -(exponent.natAbs : Int) else exponent.natAbs) =
        exponent := by
      split <;> omega
    simp only [exponentText, List.cons_append, exponent?, sign_eq]
    rw [numeral, spanDigits_append _ fun c mem => (ends c mem).1]
    simp only [decide_true, Bool.true_or, ↓reduceIte, not_empty, Bool.false_eq_true,
      decide_eq_true_eq, value_digits, value_eq]

/-- The text of a number behind its sign. -/
def unsignedText (n : Number) : List Char :=
  numeral n.whole ++ (fractionText n.fraction ++ exponentText n.exponent)

theorem text_eq (n : Number) :
    n.text = (if n.negative then ['-'] else []) ++ unsignedText n := by
  obtain ⟨negative, whole, fraction, exponent⟩ := n
  cases exponent <;> simp [Number.text, unsignedText, assemble, fractionText, exponentText]

theorem number?_unsignedText (n : Number) {rest : List Char} (ends : EndsNumber rest) :
    number? n.negative (unsignedText n ++ rest) = some (n, rest) := by
  have behind_fraction : ∀ c ∈ (exponentText n.exponent ++ rest).head?,
      Digit.ofChar? c = none ∧ c ≠ '.' := by
    intro c mem
    cases exponent_eq : n.exponent with
    | none =>
      rw [exponent_eq] at mem
      exact ⟨(ends c mem).1, (ends c mem).2.1⟩
    | some exponent =>
      rw [exponent_eq] at mem
      cases mem
      decide
  have behind_whole : ∀ c ∈ (fractionText n.fraction ++ (exponentText n.exponent ++ rest)).head?,
      Digit.ofChar? c = none := by
    intro c mem
    cases fraction_eq : n.fraction with
    | nil =>
      rw [fraction_eq] at mem
      exact (behind_fraction c mem).1
    | cons =>
      rw [fraction_eq] at mem
      cases mem
      decide
  have not_empty : (digits n.whole).isEmpty = false := by simpa using digits_ne_nil n.whole
  rw [unsignedText, List.append_assoc, List.append_assoc, number?, numeral,
    spanDigits_append _ behind_whole]
  simp [not_empty, hasSpareZero_digits, fraction?_fractionText behind_fraction,
    exponent?_exponentText ends, value_digits]

/-- A digit starts no token but a number. -/
theorem token?_digit (digit : Digit) (rest : List Char) :
    isBlank digit.toChar = false ∧ token? digit.toChar rest =
      (number? false (digit.toChar :: rest)).map fun found =>
        (.scalar (number found.1), found.2) := by
  have kinds : ∀ digit : Digit, isBlank digit.toChar = false ∧ mark? digit.toChar = none ∧
      digit.toChar ≠ '"' ∧ digit.toChar ≠ 'n' ∧ digit.toChar ≠ 't' ∧ digit.toChar ≠ 'f' ∧
      digit.toChar ≠ '-' := by
    decide
  obtain ⟨visible, no_mark, not_quote, not_null, not_true, not_false, not_minus⟩ := kinds digit
  refine ⟨visible, ?_⟩
  simp only [token?, no_mark, scalar?, if_neg not_quote, if_neg not_null, if_neg not_true,
    if_neg not_false, if_neg not_minus, Option.map_map]
  rfl

theorem opens_number (n : Number) {rest : List Char} (ends : EndsNumber rest) :
    Opens (n.text ++ rest) (.scalar (number n)) rest := by
  have read := number?_unsignedText n ends
  rw [text_eq]
  cases sign : n.negative with
  | true =>
    rw [sign] at read
    refine ⟨'-', unsignedText n ++ rest, rfl, by decide, ?_⟩
    simp [token?, mark?, scalar?, read]
  | false =>
    rw [sign] at read
    obtain ⟨digit, row, row_eq⟩ := List.exists_cons_of_ne_nil (digits_ne_nil n.whole)
    have text_eq : unsignedText n ++ rest = digit.toChar ::
        (chars row ++ (fractionText n.fraction ++ exponentText n.exponent) ++ rest) := by
      simp [unsignedText, numeral, row_eq, chars]
    obtain ⟨visible, token_eq⟩ := token?_digit digit
      (chars row ++ (fractionText n.fraction ++ exponentText n.exponent) ++ rest)
    refine ⟨_, _, text_eq, visible, ?_⟩
    rw [token_eq, ← text_eq, read]
    rfl

/-! ## Values -/

/-- A reading that goes on with a value, unless a list ends here. -/
def Reading.Expects (reading : Reading) (context : List Frame) : Prop :=
  ∀ token, (token = .closeArray → False) → reading.step token = start context token

theorem expects_value (context : List Frame) : (Reading.value context).Expects context := by
  intro token _
  rfl

theorem expects_firstItem (context : List Frame) :
    (Reading.firstItem context).Expects (.item [] :: context) := by
  intro token other
  cases token with
  | closeArray => exact (other rfl).elim
  | _ => rfl

/-- A reading that goes on with a member of an object, behind those in `done`. -/
def Reading.ExpectsMember (reading : Reading) (done : List (Option String × Json))
    (context : List Frame) : Prop :=
  ∀ content, reading.step (.string content) = some (.colon done content context)

theorem expectsMember_firstKey (context : List Frame) :
    (Reading.firstKey context).ExpectsMember [] context := by
  intro content
  rfl

theorem expectsMember_key (done : List (Option String × Json)) (context : List Frame) :
    (Reading.key done context).ExpectsMember done context := by
  intro content
  rfl

/-- The members of an object that has been read, with their keys. -/
def keyed (members : List (String × Json)) : List (Option String × Json) :=
  members.map fun member => (some member.1, member.2)

theorem ofMembers_keyed (members : List (String × Json)) :
    ofMembers (keyed members) = object members := by
  have found : members.mapM (fun member => some member) = some members := by
    have mapped := List.mapM_pure (m := Option) (l := members) (f := id)
    rwa [List.map_id] at mapped
  rw [ofMembers, keyed, List.mapM_map]
  simp only [Function.comp_def, Option.map_some, Prod.eta, found]

theorem opens_mark (token : Token) {c : Char} (found : mark? c = some token)
    (visible : isBlank c = false) (rest : List Char) : Opens (c :: rest) token rest := by
  refine ⟨c, rest, rfl, visible, ?_⟩
  rw [token?, found]

theorem opens_null (rest : List Char) : Opens (compact null ++ rest) (.scalar null) rest :=
  ⟨'n', 'u' :: 'l' :: 'l' :: rest, rfl, by decide, rfl⟩

theorem opens_bool (value : Bool) (rest : List Char) :
    Opens (compact (bool value) ++ rest) (.scalar (bool value)) rest := by
  cases value with
  | true => exact ⟨'t', 'r' :: 'u' :: 'e' :: rest, rfl, by decide, rfl⟩
  | false => exact ⟨'f', 'a' :: 'l' :: 's' :: 'e' :: rest, rfl, by decide, rfl⟩

theorem compactItems_cons_cons (item next : Json) (items : List Json) :
    compactItems (item :: next :: items) = compact item ++ ',' :: compactItems (next :: items) :=
  rfl

theorem compactMembers_cons_cons (key : String) (item : Json) (next : String × Json)
    (members : List (String × Json)) :
    compactMembers ((key, item) :: next :: members) =
      quote key ++ ':' :: compact item ++ ',' :: compactMembers (next :: members) :=
  rfl

theorem endsNumber_comma (rest : List Char) : EndsNumber (',' :: rest) :=
  endsNumber_cons (by decide)

theorem endsNumber_closeArray (rest : List Char) : EndsNumber (']' :: rest) :=
  endsNumber_cons (by decide)

theorem endsNumber_closeObject (rest : List Char) : EndsNumber ('\x7d' :: rest) :=
  endsNumber_cons (by decide)

mutual

/-- Where a value is expected, the text of a value is taken off, and the value is complete. -/
theorem readFrom_compact (value : Json) {reading : Reading} {context : List Frame}
    {rest : List Char} (expects : reading.Expects context) (ends : EndsNumber rest) :
    readFrom reading (value.compact ++ rest) = readFrom (.complete value context) rest := by
  match value with
  | null => exact readFrom_of_opens (opens_null rest) (expects _ Token.noConfusion)
  | bool value => exact readFrom_of_opens (opens_bool value rest) (expects _ Token.noConfusion)
  | number n =>
    rw [compact]
    exact readFrom_of_opens (opens_number n ends) (expects _ Token.noConfusion)
  | text s =>
    rw [compact]
    exact readFrom_of_opens (opens_quote s rest) (expects _ Token.noConfusion)
  | garbled =>
    rw [compact]
    exact readFrom_of_opens (opens_garbledText rest) (expects _ Token.noConfusion)
  | array items =>
    rw [compact, List.append_assoc, List.cons_append,
      readFrom_of_opens (opens_mark .openArray rfl rfl _) (expects _ Token.noConfusion)]
    match items with
    | [] => exact readFrom_of_opens (opens_mark .closeArray rfl rfl rest) rfl
    | item :: items =>
      exact readFrom_compactItems (item :: items) (List.cons_ne_nil item items)
        (expects_firstItem context)
  | object members =>
    rw [compact, List.append_assoc, List.cons_append,
      readFrom_of_opens (opens_mark .openObject rfl rfl _)
        (expects _ Token.noConfusion)]
    match members with
    | [] => exact readFrom_of_opens (opens_mark .closeObject rfl rfl rest) rfl
    | member :: members =>
      exact readFrom_compactMembers [] (member :: members) (List.cons_ne_nil member members)
        (expectsMember_firstKey context)

theorem readFrom_compactItems (items : List Json) (some_item : items ≠ []) {reading : Reading}
    {done : List Json} {context : List Frame} {rest : List Char}
    (expects : reading.Expects (.item done :: context)) :
    readFrom reading (compactItems items ++ ']' :: rest) =
      readFrom (.complete (array (done.reverse ++ items)) context) rest := by
  match items with
  | [] => exact (some_item rfl).elim
  | [item] =>
    rw [compactItems, readFrom_compact item expects (endsNumber_closeArray rest)]
    refine readFrom_of_opens (opens_mark _ rfl rfl rest) ?_
    rw [Reading.step, List.reverse_cons]
  | item :: next :: items =>
    rw [compactItems_cons_cons, List.append_assoc, List.cons_append,
      readFrom_compact item expects (endsNumber_comma _),
      readFrom_of_opens (opens_mark .comma rfl rfl _) rfl,
      readFrom_compactItems (next :: items) (List.cons_ne_nil next items) (expects_value _),
      List.reverse_cons, List.append_assoc, List.singleton_append]

theorem readFrom_compactMembers (front members : List (String × Json)) (some_member : members ≠ [])
    {reading : Reading} {context : List Frame} {rest : List Char}
    (expects : reading.ExpectsMember (keyed front).reverse context) :
    readFrom reading (compactMembers members ++ '\x7d' :: rest) =
      readFrom (.complete (object (front ++ members)) context) rest := by
  match members with
  | [] => exact (some_member rfl).elim
  | [(key, item)] =>
    rw [compactMembers, List.append_assoc, List.cons_append,
      readFrom_of_opens (opens_quote key _) (expects _),
      readFrom_of_opens (opens_mark .colon rfl rfl _) rfl,
      readFrom_compact item (expects_value _) (endsNumber_closeObject rest)]
    refine readFrom_of_opens (opens_mark _ rfl rfl rest) ?_
    rw [Reading.step, List.reverse_cons, List.reverse_reverse, ← ofMembers_keyed, keyed,
      keyed, List.map_append]
    rfl
  | (key, item) :: next :: members =>
    rw [compactMembers_cons_cons, List.append_assoc, List.append_assoc, List.cons_append,
      List.cons_append,
      readFrom_of_opens (opens_quote key _) (expects _),
      readFrom_of_opens (opens_mark .colon rfl rfl _) rfl,
      readFrom_compact item (expects_value _) (endsNumber_comma _),
      readFrom_of_opens (opens_mark .comma rfl rfl _) rfl]
    have done_eq : (some key, item) :: (keyed front).reverse =
        (keyed (front ++ [(key, item)])).reverse := by
      simp [keyed]
    rw [done_eq, readFrom_compactMembers (front ++ [(key, item)]) (next :: members)
      (List.cons_ne_nil next members) (expectsMember_key _ _), List.append_assoc,
      List.singleton_append]

end

/-- The compact text of a value is read as the value. -/
theorem ofText?_toText (value : Json) : ofText? value.toText = some value := by
  have read := readFrom_compact value (expects_value []) endsNumber_nil
  rw [List.append_nil] at read
  rw [ofText?, toText, String.toList_ofList, read, readFrom]
  rfl

end EvoSearch.Json
