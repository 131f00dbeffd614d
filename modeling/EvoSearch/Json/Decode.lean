/-
# Decoding

From values of JSON to values of our own types. A record is read from an object by the names of its
fields, or from a list by their order; what is missing has to have a default. There is one outcome
for everything that does not fit.
-/

import EvoSearch.Json.Reader

namespace EvoSearch.Json

variable {α β : Type}

/-- An integer from `low` on and below `high`, written as an integer. -/
def integer? (low high : Int) : Json → Option Int
  | number n => do
    let i ← n.toInt?
    if low ≤ i ∧ i < high then some i else none
  | _ => none

/-- A byte. -/
def byte? (value : Json) : Option UInt8 :=
  (value.integer? 0 UInt8.size).map fun i => UInt8.ofNat i.toNat

/-- An unsigned integer of 64 bits. -/
def word? (value : Json) : Option UInt64 :=
  (value.integer? 0 UInt64.size).map fun i => UInt64.ofNat i.toNat

/-- A natural number of at most 64 bits. -/
def natural? (value : Json) : Option Nat :=
  (value.integer? 0 UInt64.size).map Int.toNat

/-- A signed integer of 64 bits. -/
def signedWord? (value : Json) : Option Int64 :=
  (value.integer? Int64.minValue.toInt (Int64.maxValue.toInt + 1)).map Int64.ofInt

/-- A float, from any number that is not too large for one. -/
def float? : Json → Option Float
  | number n => n.toFloat?
  | _ => none

/-- A string. -/
def string? : Json → Option String
  | text s => some s
  | _ => none

/-- A list. -/
def list? (read : Json → Option α) : Json → Option (List α)
  | array items => items.mapM read
  | _ => none

/-- A pair, from a list of two. -/
def pair? (first : Json → Option α) (second : Json → Option β) : Json → Option (α × β)
  | array [a, b] => do
    let a ← first a
    let b ← second b
    pure (a, b)
  | _ => none

/-- Something or nothing, nothing being null. -/
def nullable? (read : Json → Option α) : Json → Option (Option α)
  | null => some none
  | value => (read value).map some

/-- One of several names, alone or as the one key of an object that holds null. -/
def name? (table : List (String × α)) : Json → Option α
  | text name => table.lookup name
  | object [(name, null)] => table.lookup name
  | _ => none

/-- The fields of a record with the given names. No field may be given twice, and a list may not
be longer than the record; members with other names do not matter. -/
def fields? (names : List String) : Json → Option (String → Option Json)
  | object members =>
    if names.all fun name => members.countP (fun member => member.1 == name) ≤ 1 then
      some fun name => members.lookup name
    else
      none
  | array items =>
    if items.length ≤ names.length then some fun name => (names.zip items).lookup name
    else none
  | _ => none

/-- A field that has to be there. -/
def required (read : Json → Option α) : Option Json → Option α
  | some value => read value
  | none => none

/-- A field with a default. -/
def withDefault (read : Json → Option α) (value : α) : Option Json → Option α
  | some given => read given
  | none => some value

end EvoSearch.Json
