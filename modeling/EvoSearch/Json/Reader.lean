/-
# Reading JSON

The tokens of a text drive a machine whose state is the values that are still open. It takes one
token at a time and needs no recursion of its own, so a value may nest as deep as it likes. A text
is one value: nothing may stand behind it, no comma before the end of a list, and no comments.
-/

import EvoSearch.Json.Token

namespace EvoSearch.Json

/-- A container that is open around the value in hand: a list with the items before it, or an
object with the members before it and the key that the value belongs to. The last one comes
first. -/
inductive Frame
  | item (done : List Json)
  | member (done : List (Option String × Json)) (key : Option String)

/-- What has been read, and what may follow. -/
inductive Reading
  | value (context : List Frame)
  | firstItem (context : List Frame)
  | firstKey (context : List Frame)
  | key (done : List (Option String × Json)) (context : List Frame)
  | colon (done : List (Option String × Json)) (key : Option String) (context : List Frame)
  | complete (value : Json) (context : List Frame)

/-- The value of a string token. -/
def ofContent : Option String → Json
  | some s => text s
  | none => garbled

/-- The object of the members read, which are all of them garbled by one garbled key. -/
def ofMembers (members : List (Option String × Json)) : Json :=
  match members.mapM fun (key, item) => key.map (·, item) with
  | some members => object members
  | none => garbled

/-- Take one token where a value has to start. -/
def Reading.start (context : List Frame) : Token → Option Reading
  | .scalar v => some (.complete v context)
  | .string content => some (.complete (ofContent content) context)
  | .openArray => some (.firstItem context)
  | .openObject => some (.firstKey context)
  | _ => none

/-- Take one token. -/
def Reading.step : Reading → Token → Option Reading
  | .value context, token => start context token
  | .firstItem context, .closeArray => some (.complete (.array []) context)
  | .firstItem context, token => start (.item [] :: context) token
  | .firstKey context, .closeObject => some (.complete (.object []) context)
  | .firstKey context, .string content => some (.colon [] content context)
  | .key done context, .string content => some (.colon done content context)
  | .colon done content context, .colon => some (.value (.member done content :: context))
  | .complete v (.item done :: context), .comma => some (.value (.item (v :: done) :: context))
  | .complete v (.item done :: context), .closeArray =>
    some (.complete (.array (v :: done).reverse) context)
  | .complete v (.member done content :: context), .comma =>
    some (.key ((content, v) :: done) context)
  | .complete v (.member done content :: context), .closeObject =>
    some (.complete (ofMembers ((content, v) :: done).reverse) context)
  | _, _ => none

/-- The value, once it is complete and nothing is open. -/
def Reading.finish? : Reading → Option Json
  | .complete v [] => some v
  | _ => none

/-- Go on reading a text. -/
def readFrom (reading : Reading) : List Char → Option Json
  | [] => reading.finish?
  | c :: rest =>
    if isBlank c then
      readFrom reading rest
    else
      match found : token? c rest with
      | none => none
      | some (token, behind) =>
        have := token?_length found
        match reading.step token with
        | none => none
        | some reading => readFrom reading behind
termination_by text => text.length
decreasing_by all_goals simp only [List.length_cons]; omega

/-- The value that a text writes, if the text is one value of JSON and no more. -/
def ofText? (text : String) : Option Json :=
  readFrom (.value []) text.toList

end EvoSearch.Json
