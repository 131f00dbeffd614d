/-
# Paths and places

A path is a row of bytes, most often those of a text, and its slashes cut it into names. A place is
what a path leads to: it is known by the names on the way to it from the root.
-/

namespace EvoSearch.Cli

/-- What stands between two slashes of a path, most often the name of a file or directory. -/
abbrev Piece : Type := List UInt8

/-- A path. It need not be a text. -/
structure Path where
  bytes : List UInt8
  deriving DecidableEq

namespace Path

/-- The mark between two names. -/
def slash : UInt8 := 0x2f

/-- The path that is spelled by a text. -/
def ofText (text : String) : Path where
  bytes := text.toList.flatMap String.utf8EncodeChar

/-- The text that spells a path, if there is one. -/
def text? (path : Path) : Option String :=
  String.fromUTF8? (ByteArray.mk path.bytes.toArray)

/-- The length of a path, in bytes. -/
def length (path : Path) : Nat :=
  path.bytes.length

/-- Whether a path starts at the root. -/
def isRooted (path : Path) : Bool :=
  path.bytes.head? = some slash

/-- The pieces between the slashes of a row of bytes. -/
def cutAtSlashes : List UInt8 → List Piece
  | [] => [[]]
  | byte :: rest =>
    if byte = slash then [] :: cutAtSlashes rest
    else
      match cutAtSlashes rest with
      | [] => [[byte]]
      | name :: names => (byte :: name) :: names

/-- The pieces between the slashes of a path. Not all of them are names: two slashes in a row have
an empty piece between them. -/
def pieces (path : Path) : List Piece :=
  cutAtSlashes path.bytes

/-- The path with some more text behind it. -/
def beside (path : Path) (ending : String) : Path where
  bytes := path.bytes ++ (ofText ending).bytes

end Path

/-- Whether a piece of a path leads nowhere else: it is empty, or a single dot. -/
def Piece.isStill (piece : Piece) : Bool :=
  piece = [] || piece = (Path.ofText ".").bytes

/-- Whether a piece of a path leads out of a directory: it is two dots. -/
def Piece.isUp (piece : Piece) : Bool :=
  piece = (Path.ofText "..").bytes

/-- A place, by the names on the way to it from the root. -/
abbrev Place : Type := List Piece

/-- The path of a place, a slash in front of every name. The root is reached without one. -/
def Place.path (place : Place) : Path where
  bytes := place.flatMap fun name => Path.slash :: name

end EvoSearch.Cli
