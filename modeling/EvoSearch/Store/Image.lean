/-
# Images of databases

An image keeps a database in pages of one size, behind a header that tells what they hold. Other
programs leave such files; the one that concerns us is the bare image, in which there are no tables
yet, since any database can be put in its place. A bare image may end within its first page: what
is missing there is zero.
-/

namespace EvoSearch.Store.Image

/-- The bytes that all images start with. -/
def signature : List UInt8 :=
  [0x53, 0x51, 0x4c, 0x69, 0x74, 0x65, 0x20, 0x66, 0x6f, 0x72, 0x6d, 0x61, 0x74, 0x20, 0x33, 0x00]

/-- A byte of an image. -/
def byte (image : ByteArray) (position : Nat) : Nat :=
  if within : position < image.size then (image.get position within).toNat else 0

/-- The number in `count` bytes of an image, the highest one in front. -/
def number (image : ByteArray) (position count : Nat) : Nat :=
  (List.range count).foldl (fun value i => 256 * value + byte image (position + i)) 0

/-- The size of a page. Two bytes have no room for the largest one, which is written as one. -/
def pageSize (image : ByteArray) : Nat :=
  if number image 16 2 = 1 then 65536 else number image 16 2

/-- The sizes that a page can have. -/
def pageSizes : List Nat :=
  [512, 1024, 2048, 4096, 8192, 16384, 32768, 65536]

/-- The number of bytes of a page that are in use. At the end of each page some may be left out. -/
def usableSize (image : ByteArray) : Nat :=
  pageSize image - byte image 20

/-- Whether the header is one of an image that is changed in place, and does not promise more pages
than there are. -/
def hasHeader (image : ByteArray) : Bool :=
  (image.extract 0 16).toList = signature &&
    pageSizes.contains (pageSize image) && 480 ≤ usableSize image &&
    byte image 18 ≤ 2 && byte image 19 ≤ 1 && number image 21 3 = 0x402020 &&
    (number image 24 4 ≠ number image 92 4 ||
      number image 28 4 * pageSize image < image.size + pageSize image) &&
    number image 36 4 = 0 && byte image 47 ≤ 4 && number image 52 4 ≤ 1

/-- Where the rows of the first page start; they would end with the page. -/
def rowStart (image : ByteArray) : Nat :=
  if number image 105 2 = 0 then 65536 else number image 105 2

/-- Whether an image has no tables: its first page, which is a leaf, lists none. -/
def isBare (image : ByteArray) : Bool :=
  hasHeader image && number image 100 5 = 0x0d00000000 && 108 ≤ rowStart image &&
    rowStart image + byte image 107 ≤ usableSize image

end EvoSearch.Store.Image
