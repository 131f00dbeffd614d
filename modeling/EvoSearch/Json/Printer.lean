/-
# Writing JSON

The compact form has no blanks. The indented form puts every item of a list or an object on a line
of its own, two blanks further in than what it belongs to.
-/

import EvoSearch.Json.Value

namespace EvoSearch.Json

open Decimal

/-- A hexadecimal digit, in lower case. -/
def hexDigit (n : Nat) : Char :=
  if n < 10 then Char.ofNat ('0'.toNat + n) else Char.ofNat ('a'.toNat + (n - 10))

/-- One character of a string. Quotes, backslashes and control characters are escaped, the latter
by a letter where there is one. -/
def escape (c : Char) : List Char :=
  if c = '"' then ['\\', '"']
  else if c = '\\' then ['\\', '\\']
  else if c = '\n' then ['\\', 'n']
  else if c = '\r' then ['\\', 'r']
  else if c = '\t' then ['\\', 't']
  else if c.toNat = 8 then ['\\', 'b']
  else if c.toNat = 12 then ['\\', 'f']
  else if c.toNat < 32 then ['\\', 'u', '0', '0', hexDigit (c.toNat / 16), hexDigit (c.toNat % 16)]
  else [c]

/-- A string between quotes. -/
def quote (s : String) : List Char :=
  '"' :: s.toList.flatMap escape ++ ['"']

/-- Half of a surrogate pair between quotes. -/
def garbledText : List Char :=
  ['"', '\\', 'u', 'd', '8', '0', '0', '"']

mutual

/-- The text of a value without blanks. -/
def compact : Json → List Char
  | null => ['n', 'u', 'l', 'l']
  | bool true => ['t', 'r', 'u', 'e']
  | bool false => ['f', 'a', 'l', 's', 'e']
  | number n => n.text
  | text s => quote s
  | garbled => garbledText
  | array items => '[' :: compactItems items ++ [']']
  | object members => '\x7b' :: compactMembers members ++ ['\x7d']

/-- The texts of the items of a list, with commas in between. -/
def compactItems : List Json → List Char
  | [] => []
  | [item] => compact item
  | item :: items => compact item ++ ',' :: compactItems items

/-- The texts of the members of an object, with commas in between. -/
def compactMembers : List (String × Json) → List Char
  | [] => []
  | [(key, item)] => quote key ++ ':' :: compact item
  | (key, item) :: members => quote key ++ ':' :: compact item ++ ',' :: compactMembers members

end

/-- The start of a new line, `depth` levels in. -/
def newline (depth : Nat) : List Char :=
  '\n' :: List.replicate (2 * depth) ' '

mutual

/-- The indented text of a value that stands `depth` levels in. -/
def indented (depth : Nat) : Json → List Char
  | null => ['n', 'u', 'l', 'l']
  | bool true => ['t', 'r', 'u', 'e']
  | bool false => ['f', 'a', 'l', 's', 'e']
  | number n => n.text
  | text s => quote s
  | garbled => garbledText
  | array [] => ['[', ']']
  | array (item :: items) =>
    '[' :: indentedItems (depth + 1) (item :: items) ++ newline depth ++ [']']
  | object [] => ['\x7b', '\x7d']
  | object (member :: members) =>
    '\x7b' :: indentedMembers (depth + 1) (member :: members) ++ newline depth ++ ['\x7d']

/-- The indented texts of the items of a list. -/
def indentedItems (depth : Nat) : List Json → List Char
  | [] => []
  | [item] => newline depth ++ indented depth item
  | item :: items => newline depth ++ indented depth item ++ ',' :: indentedItems depth items

/-- The indented texts of the members of an object. -/
def indentedMembers (depth : Nat) : List (String × Json) → List Char
  | [] => []
  | [(key, item)] => newline depth ++ quote key ++ [':', ' '] ++ indented depth item
  | (key, item) :: members =>
    newline depth ++ quote key ++ [':', ' '] ++ indented depth item ++
      ',' :: indentedMembers depth members

end

/-- The text of a value without blanks. -/
def toText (value : Json) : String :=
  String.ofList value.compact

/-- The text of a value with indentation. -/
def toIndentedText (value : Json) : String :=
  String.ofList (value.indented 0)

end EvoSearch.Json
