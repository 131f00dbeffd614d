/-
# Tokens of JSON

The pieces that a text of JSON is made of, and how they are cut off its front. What is accepted is
JSON and no more: no leading zeros, no control characters in strings, no words but the three. Each
token takes at least one character, which is what reading a text comes to an end by.
-/

import EvoSearch.Json.Value

namespace EvoSearch.Json

open Decimal

/-- The pieces that a text is made of. A string that cannot be read has no content. -/
inductive Token
  | openArray
  | closeArray
  | openObject
  | closeObject
  | comma
  | colon
  | scalar (value : Json)
  | string (content : Option String)

/-- The characters that may stand between tokens. -/
def isBlank (c : Char) : Bool :=
  c = ' ' || c = '\n' || c = '\t' || c = '\r'

/-- The value of a hexadecimal digit. -/
def hexValue? (c : Char) : Option Nat :=
  let n := c.toNat
  if '0'.toNat ≤ n && n ≤ '9'.toNat then some (n - '0'.toNat)
  else if 'a'.toNat ≤ n && n ≤ 'f'.toNat then some (n - 'a'.toNat + 10)
  else if 'A'.toNat ≤ n && n ≤ 'F'.toNat then some (n - 'A'.toNat + 10)
  else none

/-- The number that four hexadecimal digits write. -/
def hexUnit? (a b c d : Char) : Option Nat := do
  let a ← hexValue? a
  let b ← hexValue? b
  let c ← hexValue? c
  let d ← hexValue? d
  pure (((a * 16 + b) * 16 + c) * 16 + d)

/-- The character that a letter behind a backslash stands for. -/
def unescape? (c : Char) : Option Char :=
  if c = '"' then some '"'
  else if c = '\\' then some '\\'
  else if c = '/' then some '/'
  else if c = 'b' then some (Char.ofNat 8)
  else if c = 'f' then some (Char.ofNat 12)
  else if c = 'n' then some '\n'
  else if c = 'r' then some '\r'
  else if c = 't' then some '\t'
  else none

/-- The number that a text starts with four hexadecimal digits of. -/
def unit? : List Char → Option (Nat × List Char)
  | a :: b :: c :: d :: rest => (hexUnit? a b c d).map (·, rest)
  | _ => none

/-- The number behind a further escape, if that is the second half of a surrogate pair. -/
def lowHalf? : List Char → Option (Nat × List Char)
  | backslash :: letter :: rest =>
    if backslash = '\\' && letter = 'u' then
      match unit? rest with
      | some (unit, rest) =>
        if 0xdc00 ≤ unit && unit < 0xe000 then some (unit - 0xdc00, rest) else none
      | none => none
    else
      none
  | _ => none

/-- Read an escape behind its backslash. Half of a surrogate pair stands for no character. -/
def escaped? : List Char → Option (Option Char × List Char)
  | [] => none
  | c :: rest =>
    if c = 'u' then
      match unit? rest with
      | none => none
      | some (unit, rest) =>
        if 0xd800 ≤ unit && unit < 0xdc00 then
          match lowHalf? rest with
          | some (half, rest) =>
            some (some (Char.ofNat (0x10000 + (unit - 0xd800) * 0x400 + half)), rest)
          | none => some (none, rest)
        else if 0xdc00 ≤ unit && unit < 0xe000 then
          some (none, rest)
        else
          some (some (Char.ofNat unit), rest)
    else
      (unescape? c).map (some ·, rest)

theorem unit?_length {text rest : List Char} {unit : Nat}
    (found : unit? text = some (unit, rest)) : rest.length < text.length := by
  unfold unit? at found
  split at found
  · simp only [Option.map_eq_some_iff, Prod.mk.injEq] at found
    obtain ⟨_, _, _, rfl⟩ := found
    simp only [List.length_cons]
    omega
  · cases found

theorem lowHalf?_length {text rest : List Char} {half : Nat}
    (found : lowHalf? text = some (half, rest)) : rest.length < text.length := by
  unfold lowHalf? at found
  split at found
  · split at found
    · split at found
      · next unit_eq =>
        have := unit?_length unit_eq
        split at found
        · simp only [Option.some.injEq, Prod.mk.injEq] at found
          obtain ⟨-, rfl⟩ := found
          simp only [List.length_cons]
          omega
        · cases found
      · cases found
    · cases found
  · cases found

theorem escaped?_length {text rest : List Char} {content : Option Char}
    (found : escaped? text = some (content, rest)) : rest.length < text.length := by
  unfold escaped? at found
  split at found
  · cases found
  · split at found
    · split at found
      · cases found
      · next unit_eq =>
        have shorter := unit?_length unit_eq
        simp only [List.length_cons]
        split at found
        · split at found
          · next half_eq =>
            have := lowHalf?_length half_eq
            simp only [Option.some.injEq, Prod.mk.injEq] at found
            obtain ⟨-, rfl⟩ := found
            omega
          · simp only [Option.some.injEq, Prod.mk.injEq] at found
            obtain ⟨-, rfl⟩ := found
            omega
        · split at found <;>
          · simp only [Option.some.injEq, Prod.mk.injEq] at found
            obtain ⟨-, rfl⟩ := found
            omega
    · simp only [Option.map_eq_some_iff, Prod.mk.injEq] at found
      obtain ⟨_, _, _, rfl⟩ := found
      simp

/-- Read a string behind its first quote. `front` holds the characters so far, the last one first;
`intact` tells that no half of a surrogate pair has come alone. -/
def stringBody (front : List Char) (intact : Bool) : List Char → Option (Option String × List Char)
  | [] => none
  | c :: rest =>
    if c = '"' then
      some (if intact then some (String.ofList front.reverse) else none, rest)
    else if c = '\\' then
      match found : escaped? rest with
      | none => none
      | some (content, behind) =>
        have := escaped?_length found
        match content with
        | some c => stringBody (c :: front) intact behind
        | none => stringBody front false behind
    else if c.toNat < 32 then
      none
    else
      stringBody (c :: front) intact rest
termination_by text => text.length
decreasing_by all_goals simp only [List.length_cons]; omega

/-- The digits behind the point, if a text goes on with a point. -/
def fraction? : List Char → Option (List Digit × List Char)
  | '.' :: rest =>
    let (row, rest) := spanDigits rest
    if row.isEmpty then none else some (row, rest)
  | rest => some ([], rest)

/-- The sign of a power of ten: whether it is a minus, and the text behind it. -/
def exponentSign : List Char → Bool × List Char
  | '-' :: rest => (true, rest)
  | '+' :: rest => (false, rest)
  | rest => (false, rest)

/-- The power of ten, if a text goes on with one. -/
def exponent? : List Char → Option (Option Int × List Char)
  | c :: rest =>
    if c = 'e' || c = 'E' then
      let (negative, rest) := exponentSign rest
      let (row, rest) := spanDigits rest
      if row.isEmpty then none
      else some (some (if negative then -(value row : Int) else value row), rest)
    else
      some (none, c :: rest)
  | [] => some (none, [])

/-- Whether a row of digits starts with a zero that it could do without. -/
def hasSpareZero : List Digit → Bool
  | first :: _ :: _ => first.val == 0
  | _ => false

/-- Read a number behind its sign. -/
def number? (negative : Bool) (text : List Char) : Option (Number × List Char) :=
  let (row, rest) := spanDigits text
  if row.isEmpty || hasSpareZero row then none
  else do
    let (fraction, rest) ← fraction? rest
    let (exponent, rest) ← exponent? rest
    pure ({ negative, whole := value row, fraction, exponent }, rest)

/-- The text behind `word`, if it starts with it. -/
def afterWord? : (word text : List Char) → Option (List Char)
  | [], rest => some rest
  | _ :: _, [] => none
  | w :: word, c :: rest => if w = c then afterWord? word rest else none

/-- The token that is one character. -/
def mark? (c : Char) : Option Token :=
  if c = '[' then some .openArray
  else if c = ']' then some .closeArray
  else if c = '\x7b' then some .openObject
  else if c = '\x7d' then some .closeObject
  else if c = ',' then some .comma
  else if c = ':' then some .colon
  else none

/-- The scalar that starts with `c` and goes on with `rest`, and what is left. -/
def scalar? (c : Char) (rest : List Char) : Option (Json × List Char) :=
  if c = 'n' then (afterWord? ['u', 'l', 'l'] rest).map (null, ·)
  else if c = 't' then (afterWord? ['r', 'u', 'e'] rest).map (bool true, ·)
  else if c = 'f' then (afterWord? ['a', 'l', 's', 'e'] rest).map (bool false, ·)
  else if c = '-' then (number? true rest).map fun (n, rest) => (number n, rest)
  else (number? false (c :: rest)).map fun (n, rest) => (number n, rest)

/-- The token that starts with `c` and goes on with `rest`, and what is left. -/
def token? (c : Char) (rest : List Char) : Option (Token × List Char) :=
  match mark? c with
  | some token => some (token, rest)
  | none =>
    if c = '"' then (stringBody [] true rest).map fun (content, rest) => (.string content, rest)
    else (scalar? c rest).map fun (value, rest) => (.scalar value, rest)

theorem stringBody_length {front : List Char} {intact : Bool} {text rest : List Char}
    {content : Option String} (found : stringBody front intact text = some (content, rest)) :
    rest.length < text.length := by
  fun_induction stringBody front intact text with
  | case1 => cases found
  | case2 =>
    cases found
    simp
  | case3 => cases found
  | case4 _ _ _ _ _ _ _ shorter _ ih =>
    have := ih found
    simp only [List.length_cons]
    omega
  | case5 _ _ _ _ _ _ _ shorter ih =>
    have := ih found
    simp only [List.length_cons]
    omega
  | case6 => cases found
  | case7 _ _ _ _ _ _ _ ih =>
    have := ih found
    simp only [List.length_cons]
    omega

theorem spanDigits_length {text rest : List Char} {row : List Digit}
    (found : spanDigits text = (row, rest)) : row.length + rest.length = text.length := by
  induction text generalizing row with
  | nil =>
    cases found
    rfl
  | cons c tail ih =>
    simp only [spanDigits] at found
    split at found
    · cases found
      simp
    · next digit _ =>
      generalize tail_eq : spanDigits tail = span at found
      obtain ⟨row', rest'⟩ := span
      simp only [Prod.mk.injEq] at found
      obtain ⟨rfl, rfl⟩ := found
      have := ih tail_eq
      simp only [List.length_cons]
      omega

theorem fraction?_length {text rest : List Char} {row : List Digit}
    (found : fraction? text = some (row, rest)) : rest.length ≤ text.length := by
  unfold fraction? at found
  split at found
  · next tail =>
    generalize tail_eq : spanDigits tail = span at found
    obtain ⟨row', rest'⟩ := span
    have := spanDigits_length tail_eq
    simp only at found
    split at found
    · cases found
    · simp only [Option.some.injEq, Prod.mk.injEq] at found
      obtain ⟨-, rfl⟩ := found
      simp only [List.length_cons]
      omega
  · cases found
    exact Nat.le_refl _

theorem exponentSign_length {text rest : List Char} {negative : Bool}
    (found : exponentSign text = (negative, rest)) : rest.length ≤ text.length := by
  unfold exponentSign at found
  split at found
  all_goals
    cases found
    simp

theorem exponent?_length {text rest : List Char} {power : Option Int}
    (found : exponent? text = some (power, rest)) : rest.length ≤ text.length := by
  unfold exponent? at found
  split at found
  · next c tail =>
    split at found
    · generalize sign_eq : exponentSign tail = signed at found
      obtain ⟨negative, behind⟩ := signed
      have signed_length := exponentSign_length sign_eq
      generalize digits_eq : spanDigits behind = span at found
      obtain ⟨row, rest'⟩ := span
      have := spanDigits_length digits_eq
      simp only at found
      split at found
      · cases found
      · simp only [digits_eq, Option.some.injEq, Prod.mk.injEq] at found
        obtain ⟨-, rfl⟩ := found
        simp only [List.length_cons]
        omega
    · cases found
      exact Nat.le_refl _
  · cases found
    exact Nat.le_refl _

theorem number?_length {negative : Bool} {text rest : List Char} {n : Number}
    (found : number? negative text = some (n, rest)) : rest.length < text.length := by
  unfold number? at found
  generalize digits_eq : spanDigits text = span at found
  obtain ⟨row, behind⟩ := span
  have row_length := spanDigits_length digits_eq
  simp only at found
  split at found
  · cases found
  · next proper =>
    have : 0 < row.length := by
      cases row with
      | nil => simp at proper
      | cons digit row => simp
    simp only [bind, pure, Option.bind_eq_some_iff, Option.some.injEq, Prod.mk.injEq,
      Prod.exists] at found
    obtain ⟨fraction, rest₁, fraction_eq, power, rest₂, power_eq, -, rfl⟩ := found
    have := fraction?_length fraction_eq
    have := exponent?_length power_eq
    omega

theorem afterWord?_length {word text rest : List Char} (found : afterWord? word text = some rest) :
    rest.length ≤ text.length := by
  induction word generalizing text with
  | nil =>
    cases found
    exact Nat.le_refl _
  | cons w word ih =>
    cases text with
    | nil => cases found
    | cons c text =>
      simp only [afterWord?] at found
      split at found
      · have := ih found
        simp only [List.length_cons]
        omega
      · cases found

theorem map_afterWord?_length {word text rest : List Char} {constant value : Json}
    (found : (afterWord? word text).map (constant, ·) = some (value, rest)) :
    rest.length ≤ text.length := by
  obtain ⟨_, word_eq, same⟩ := Option.map_eq_some_iff.mp found
  obtain ⟨-, rfl⟩ := Prod.mk.inj same
  exact afterWord?_length word_eq

theorem scalar?_length {c : Char} {rest behind : List Char} {value : Json}
    (found : scalar? c rest = some (value, behind)) : behind.length ≤ rest.length := by
  unfold scalar? at found
  split at found
  · exact map_afterWord?_length found
  split at found
  · exact map_afterWord?_length found
  split at found
  · exact map_afterWord?_length found
  split at found
  · simp only [Option.map_eq_some_iff, Prod.mk.injEq, Prod.exists] at found
    obtain ⟨_, _, number_eq, -, rfl⟩ := found
    exact Nat.le_of_lt (number?_length number_eq)
  · simp only [Option.map_eq_some_iff, Prod.mk.injEq, Prod.exists] at found
    obtain ⟨_, _, number_eq, -, rfl⟩ := found
    exact Nat.le_of_lt_succ (number?_length number_eq)

/-- A token takes at least its first character off the text. -/
theorem token?_length {c : Char} {rest behind : List Char} {token : Token}
    (found : token? c rest = some (token, behind)) : behind.length ≤ rest.length := by
  unfold token? at found
  split at found
  · cases found
    exact Nat.le_refl _
  · split at found
    · simp only [Option.map_eq_some_iff, Prod.mk.injEq, Prod.exists] at found
      obtain ⟨_, _, string_eq, -, rfl⟩ := found
      exact Nat.le_of_lt (stringBody_length string_eq)
    · simp only [Option.map_eq_some_iff, Prod.mk.injEq, Prod.exists] at found
      obtain ⟨_, _, scalar_eq, -, rfl⟩ := found
      exact scalar?_length scalar_eq

end EvoSearch.Json
