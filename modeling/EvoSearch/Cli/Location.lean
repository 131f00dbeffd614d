/-
# Where a database is

A database is named by a text. A text that starts with `file:` is a URI: host, path and options,
with any byte written as `%` and two hexadecimal digits if one likes. All other texts are paths.
The path that names no file, or that the options keep in memory, is that of a private database.
-/

import EvoSearch.Cli.Path
import EvoSearch.Json.Token

namespace EvoSearch.Cli

open EvoSearch.Decimal

/-- What a database may do with its file. -/
inductive Access
  | read
  | change
  /-- change it, and make it if it is missing -/
  | create
  /-- nothing, since the database is kept in memory -/
  | memory
  deriving DecidableEq

/-- How those who use a file at the same time keep out of each other's way. -/
inductive Locking
  /-- by locks on parts of the file -/
  | parts
  /-- by a lock on all of the file -/
  | whole
  /-- by a marker beside the file -/
  | marker
  /-- not at all, though a marker of somebody else counts -/
  | heeding
  | none
  deriving DecidableEq

/-- A file of a database, and how it is used. -/
structure Volume where
  path : Path
  access : Access
  /-- whether nothing is changed or cleared away, whatever the access -/
  frozen : Bool
  locking : Locking
  /-- whether the index of a log may only be read -/
  fixedIndex : Bool
  /-- a path that has to lead to something -/
  model? : Option Path
  deriving DecidableEq

/-- Where a database is kept. -/
inductive Location
  | memory (writable : Bool)
  | file (volume : Volume)
  deriving DecidableEq

/-- Why a text names no database. -/
inductive LocationError
  | nulCharacter
  | foreignHost
  | unknownMode
  | forbiddenMode
  | unknownCache
  | unknownDriver
  | longName
  deriving DecidableEq

/-- What is wrong with a text that names no database. -/
def LocationError.message : LocationError → String
  | nulCharacter => "a path holds no zero character"
  | foreignHost => "not this machine"
  | unknownMode => "no such access mode"
  | forbiddenMode => "access mode not allowed"
  | unknownCache => "no such cache mode"
  | unknownDriver => "no such driver"
  | longName => "name too long"

namespace Access

/-- Each access is ranked above those that are part of it. -/
def rank : Access → Nat
  | read => 0
  | change => 1
  | create => 2
  | memory => 3

/-- The access of a mode. -/
def ofMode? : String → Option Access
  | "ro" => some read
  | "rw" => some change
  | "rwc" => some create
  | "memory" => some memory
  | _ => none

/-- The access after a mode has been asked for. Memory can be had at any time, and nothing else
that goes beyond the present access. -/
def restrict (access : Access) (mode : String) : Except LocationError Access :=
  match ofMode? mode with
  | none => .error .unknownMode
  | some wanted =>
    if wanted = memory || wanted.rank ≤ access.rank then .ok wanted else .error .forbiddenMode

end Access

namespace Locking

/-- The way of locking of a driver of files. -/
def ofDriver? : String → Option Locking
  | "unix" => some parts
  | "unix-excl" => some whole
  | "unix-dotfile" => some marker
  | "unix-none" => some none
  | _ => Option.none

/-- What is left of a way of locking without the locks. -/
def withoutLocks : Locking → Locking
  | marker => heeding
  | heeding => heeding
  | _ => none

/-- Whether the file itself is locked. Only then a log can be shared. -/
def locksFile : Locking → Bool
  | parts => true
  | whole => true
  | _ => false

end Locking

/-- A text up to the first `mark`, and behind it. -/
def cut (mark : Char) (text : List Char) : List Char × List Char :=
  (text.takeWhile (· ≠ mark), (text.dropWhile (· ≠ mark)).drop 1)

/-- The bytes of a text, without its escapes. It ends in front of an escaped zero. -/
def unescape : List Char → List UInt8
  | [] => []
  | '%' :: a :: b :: rest =>
    match Json.hexValue? a, Json.hexValue? b with
    | some high, some low =>
      if high = 0 && low = 0 then [] else UInt8.ofNat (16 * high + low) :: unescape rest
    | _, _ => String.utf8EncodeChar '%' ++ unescape (a :: b :: rest)
  | c :: rest => String.utf8EncodeChar c ++ unescape rest

/-- The word of some bytes. Where they are not those of a text, there is no word. -/
def wordOf (bytes : List UInt8) : String :=
  (String.fromUTF8? (ByteArray.mk bytes.toArray)).getD ""

/-- The options of a query, by name. One whose name is no word does not count. -/
def options (query : List Char) : List (String × List UInt8) :=
  let pieces := (String.ofList query).splitOn "&"
  let named := pieces.map fun piece =>
    let (name, value) := cut '=' piece.toList
    (wordOf (unescape name), unescape value)
  named.filter fun option => !option.1.isEmpty

/-- The number of a text, which starts with a decimal digit. What stands behind its digits does not
count. Behind `0x` the digits are hexadecimal. -/
def number (text : List Char) : Nat :=
  let hexDigits (rest : List Char) : List Char := rest.takeWhile fun c => (Json.hexValue? c).isSome
  let hexadecimal (rest : List Char) : Nat :=
    (hexDigits rest).foldl (fun value c => 16 * value + (Json.hexValue? c).getD 0) 0
  match text with
  | '0' :: 'x' :: rest => hexadecimal rest
  | '0' :: 'X' :: rest => hexadecimal rest
  | _ => Decimal.value (spanDigits text).1

/-- Whether the value of an option says yes, in a word or by a number. Of the number the last byte
counts, and a number of more than 31 bits is no number. -/
def saysYes (value : List UInt8) : Bool :=
  let word := value.map fun byte => Char.ofNat byte.toNat
  match spanDigits word with
  | ([], _) => ["on", "yes", "true"].contains (String.ofList word).toLower
  | _ => number word < Nat.pow 2 31 && number word % 256 ≠ 0

namespace Location

/-- The length of the longest name of a database that is kept in memory in place of a file. -/
def longestName : Nat := 1016

/-- Whether a path stands for a private database: it is empty, or tells so. -/
def isPrivate (path : Path) : Bool :=
  path.bytes = [] || path = .ofText ":memory:"

/-- The location of a path without options. -/
def ofPath (path : Path) : Location :=
  if isPrivate path then memory true
  else
    file { path, access := .create, frozen := false, locking := .parts, fixedIndex := false
           model? := none }

/-- The part of a URI behind its host, which has to be this machine. -/
def behindHost : List Char → Except LocationError (List Char)
  | '/' :: '/' :: rest =>
    let host := String.ofList (rest.takeWhile (· ≠ '/'))
    if host = "" || host = "localhost" then .ok (rest.dropWhile (· ≠ '/'))
    else .error .foreignHost
  | rest => .ok rest

/-- The access after one more option. -/
def restrict (access : Access) : (option : String × List UInt8) → Except LocationError Access
  | ("mode", mode) => access.restrict (wordOf mode)
  | ("cache", mode) =>
    if ["shared", "private"].contains (wordOf mode) then .ok access else .error .unknownCache
  | _ => .ok access

/-- The location of a path with the options of a query. Of several drivers the last one counts, and
of all other options the first one. All drivers but one work on files, and that one keeps in memory
what would be in a file. -/
def ofOptions (path : Path) (options : List (String × List UInt8)) :
    Except LocationError Location := do
  let access ← options.foldlM restrict .create
  let affirms (name : String) : Bool := ((options.lookup name).map saysYes).getD false
  let driver := ((options.reverse.lookup "vfs").map wordOf).getD "unix"
  let inMemory := access = .memory || isPrivate path
  match Locking.ofDriver? driver with
  | some locking =>
    if inMemory then pure (memory (access ≠ .read))
    else
      pure (file
        { path, access, frozen := affirms "immutable", fixedIndex := affirms "readonly_shm"
          locking := if affirms "nolock" then locking.withoutLocks else locking
          model? := (options.lookup "modeof").map Path.mk })
  | none =>
    if driver ≠ "memdb" then .error .unknownDriver
    else if inMemory then pure (memory (access ≠ .read))
    else if longestName < path.length then .error .longName
    else pure (memory (access ≠ .read && !affirms "immutable"))

/-- The location of a URI, given what stands behind its scheme. -/
def ofUri (text : List Char) : Except LocationError Location := do
  let rest ← behindHost text
  let (path, query) := cut '?' (cut '#' rest).1
  ofOptions { bytes := unescape path } (options query)

/-- The location that a text names. -/
def ofText (text : String) : Except LocationError Location :=
  if text.contains '\x00' then .error .nulCharacter
  else
    match text.toList with
    | 'f' :: 'i' :: 'l' :: 'e' :: ':' :: rest => ofUri rest
    | _ => .ok (ofPath (.ofText text))

end Location

end EvoSearch.Cli
