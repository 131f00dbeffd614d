/-
# Values of JSON
-/

import EvoSearch.Json.Number

namespace EvoSearch

/-- A value of JSON. The members of an object keep their order and may repeat a key. -/
inductive Json
  | null
  | bool (value : Bool)
  | number (value : Json.Number)
  | text (value : String)
  /-- a string, or an object with a key, that escapes half of a surrogate pair: it has a place in
  the text, but no value of ours can be read from it -/
  | garbled
  | array (items : List Json)
  | object (members : List (String × Json))

namespace Json

/-- A natural number. -/
def ofNat (n : Nat) : Json :=
  number (.ofNat n)

/-- An integer. -/
def ofInt (n : Int) : Json :=
  number (.ofInt n)

/-- A float; where there is no number for it, null. -/
def ofFloat (x : Float) : Json :=
  match Number.ofFloat? x with
  | some n => number n
  | none => null

mutual

/-- Whether everything in a value can be read, with `depth` levels of nesting at the most. -/
def isReadable : (depth : Nat) → Json → Bool
  | _, null => true
  | _, bool _ => true
  | _, number n => n.toFloat?.isSome
  | _, text _ => true
  | _, garbled => false
  | 0, array _ => false
  | depth + 1, array items => areReadable depth items
  | 0, object _ => false
  | depth + 1, object members => membersReadable depth members

/-- Whether everything in a list of values can be read. -/
def areReadable : (depth : Nat) → List Json → Bool
  | _, [] => true
  | depth, item :: items => isReadable depth item && areReadable depth items

/-- Whether everything in the members of an object can be read. -/
def membersReadable : (depth : Nat) → List (String × Json) → Bool
  | _, [] => true
  | depth, (_, item) :: members => isReadable depth item && membersReadable depth members

end

end Json

end EvoSearch
