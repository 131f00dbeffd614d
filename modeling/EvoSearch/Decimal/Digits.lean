/-
# Decimal digits

Rows of decimal digits, the numbers that they stand for, and their characters. The row of a number
has no leading zero except the one of zero itself.
-/

namespace EvoSearch.Decimal

/-- A decimal digit. -/
abbrev Digit : Type := Fin 10

namespace Digit

/-- The digit of nothing. -/
def zero : Digit := ⟨0, by decide⟩

/-- The character of a digit. -/
def toChar (digit : Digit) : Char :=
  Char.ofNat ('0'.toNat + digit.val)

/-- The digit of a character, if it is one. -/
def ofChar? (c : Char) : Option Digit :=
  if h : '0'.toNat ≤ c.toNat ∧ c.toNat ≤ '9'.toNat then
    some ⟨c.toNat - '0'.toNat, by
      have nine : '9'.toNat = '0'.toNat + 9 := rfl
      omega⟩
  else
    none

theorem ofChar?_toChar (digit : Digit) : ofChar? digit.toChar = some digit := by
  revert digit
  decide

end Digit

/-- The digits of a number. -/
def digits (n : Nat) : List Digit :=
  if n < 10 then [Fin.ofNat 10 n] else digits (n / 10) ++ [Fin.ofNat 10 n]

/-- The number of a row of digits that stands behind the digits of `front`. -/
def valueFrom (front : Nat) (row : List Digit) : Nat :=
  row.foldl (fun n digit => 10 * n + digit.val) front

/-- The number of a row of digits. -/
def value (row : List Digit) : Nat :=
  valueFrom 0 row

/-- Exactly `width` digits of a number, the last ones, with zeros in front where it is short. -/
def lastDigits (width n : Nat) : List Digit :=
  match width with
  | 0 => []
  | width + 1 => lastDigits width (n / 10) ++ [Fin.ofNat 10 n]

/-- The characters of a row of digits. -/
def chars (row : List Digit) : List Char :=
  row.map Digit.toChar

/-- The numeral of a number. -/
def numeral (n : Nat) : List Char :=
  chars (digits n)

/-- The numeral of an integer. -/
def signedNumeral (n : Int) : List Char :=
  if n < 0 then '-' :: numeral n.natAbs else numeral n.natAbs

/-- The row of digits that a text starts with, and the text behind it. -/
def spanDigits : List Char → List Digit × List Char
  | [] => ([], [])
  | c :: rest =>
    match Digit.ofChar? c with
    | none => ([], c :: rest)
    | some digit =>
      let (row, rest) := spanDigits rest
      (digit :: row, rest)

/-- The digits of a number stand for the number. -/
theorem value_digits (n : Nat) : value (digits n) = n := by
  induction n using digits.induct with
  | case1 n small => rw [digits, if_pos small]; simp [value, valueFrom, Nat.mod_eq_of_lt small]
  | case2 n large ih =>
    rw [digits, if_neg large]
    simp only [value, valueFrom, List.foldl_append, List.foldl_cons, List.foldl_nil] at ih ⊢
    rw [ih, Fin.val_ofNat]
    omega

theorem digits_ne_nil (n : Nat) : digits n ≠ [] := by
  rw [digits]
  split <;> simp

/-- A row of digits is found again in front of a text that does not go on with a digit. -/
theorem spanDigits_append (row : List Digit) {rest : List Char}
    (ends : ∀ c ∈ rest.head?, Digit.ofChar? c = none) :
    spanDigits (chars row ++ rest) = (row, rest) := by
  induction row with
  | nil =>
    cases rest with
    | nil => rfl
    | cons c rest => simp [chars, spanDigits, ends c rfl]
  | cons digit row ih =>
    simp only [chars, List.map_cons, List.cons_append, spanDigits, Digit.ofChar?_toChar] at ih ⊢
    rw [ih]

end EvoSearch.Decimal
