/-
# Streams of random words

A stream hands out 32-bit words for ever. The stream of a seed is the key stream of ChaCha with
twelve rounds: the seed is stretched to a key of eight words, and the words of block 0, 1, 2, …
follow one another. Nothing else in the library looks inside a stream.
-/

import EvoSearch.Fault

namespace EvoSearch.Random

/-- A source of 32-bit words; `next` gives a word and the source of those behind it. -/
class WordStream (ρ : Type) where
  next : ρ → UInt32 × ρ

/-- Two words as one of 64 bits, the first being the low half. -/
def WordStream.next64 {ρ : Type} [WordStream ρ] (stream : ρ) : UInt64 × ρ :=
  let (low, stream) := WordStream.next stream
  let (high, stream) := WordStream.next stream
  (high.toUInt64 <<< 32 ||| low.toUInt64, stream)

/-- Every function from positions to words is a stream, together with the position reached. -/
structure Tape where
  word : Nat → UInt32
  position : Nat

instance : WordStream Tape where
  next tape := (tape.word tape.position, { tape with position := tape.position + 1 })

/-- The eight words of a key. -/
structure Key where
  k0 : UInt32
  k1 : UInt32
  k2 : UInt32
  k3 : UInt32
  k4 : UInt32
  k5 : UInt32
  k6 : UInt32
  k7 : UInt32
  deriving DecidableEq

/-- One step of the generator that stretches a seed to a key. -/
def stretch (seed : UInt64) : UInt32 × UInt64 :=
  let seed := seed * 6364136223846793005 + 11634580027462260723
  let mixed := (((seed >>> 18) ^^^ seed) >>> 27).toUInt32
  let turn := (seed >>> 59).toUInt32
  ((mixed >>> turn) ||| (mixed <<< ((32 - turn) % 32)), seed)

/-- The key of a seed. -/
def Key.ofSeed (seed : UInt64) : Key :=
  let (k0, seed) := stretch seed
  let (k1, seed) := stretch seed
  let (k2, seed) := stretch seed
  let (k3, seed) := stretch seed
  let (k4, seed) := stretch seed
  let (k5, seed) := stretch seed
  let (k6, seed) := stretch seed
  let (k7, _) := stretch seed
  { k0, k1, k2, k3, k4, k5, k6, k7 }

/-- The sixteen words that a block is computed on. -/
structure Matrix where
  x0 : UInt32
  x1 : UInt32
  x2 : UInt32
  x3 : UInt32
  x4 : UInt32
  x5 : UInt32
  x6 : UInt32
  x7 : UInt32
  x8 : UInt32
  x9 : UInt32
  x10 : UInt32
  x11 : UInt32
  x12 : UInt32
  x13 : UInt32
  x14 : UInt32
  x15 : UInt32

/-- The word turned left by `count` bits, `0 < count < 32`. -/
@[inline] def rotateLeft (word count : UInt32) : UInt32 :=
  (word <<< count) ||| (word >>> (32 - count))

/-- A quarter round on four words, handed on to `next`. -/
@[inline] def quarter {α : Type} (a b c d : UInt32)
    (next : UInt32 → UInt32 → UInt32 → UInt32 → α) : α :=
  let a := a + b
  let d := rotateLeft (d ^^^ a) 16
  let c := c + d
  let b := rotateLeft (b ^^^ c) 12
  let a := a + b
  let d := rotateLeft (d ^^^ a) 8
  let c := c + d
  let b := rotateLeft (b ^^^ c) 7
  next a b c d

/-- A round on the columns and one on the diagonals. -/
def Matrix.doubleRound (m : Matrix) : Matrix :=
  quarter m.x0 m.x4 m.x8 m.x12 fun x0 x4 x8 x12 =>
  quarter m.x1 m.x5 m.x9 m.x13 fun x1 x5 x9 x13 =>
  quarter m.x2 m.x6 m.x10 m.x14 fun x2 x6 x10 x14 =>
  quarter m.x3 m.x7 m.x11 m.x15 fun x3 x7 x11 x15 =>
  quarter x0 x5 x10 x15 fun x0 x5 x10 x15 =>
  quarter x1 x6 x11 x12 fun x1 x6 x11 x12 =>
  quarter x2 x7 x8 x13 fun x2 x7 x8 x13 =>
  quarter x3 x4 x9 x14 fun x3 x4 x9 x14 =>
  { x0, x1, x2, x3, x4, x5, x6, x7, x8, x9, x10, x11, x12, x13, x14, x15 }

/-- The matrix of a key and a block number, before any round. -/
def Matrix.start (key : Key) (block : UInt64) : Matrix where
  x0 := 0x61707865
  x1 := 0x3320646e
  x2 := 0x79622d32
  x3 := 0x6b206574
  x4 := key.k0
  x5 := key.k1
  x6 := key.k2
  x7 := key.k3
  x8 := key.k4
  x9 := key.k5
  x10 := key.k6
  x11 := key.k7
  x12 := block.toUInt32
  x13 := (block >>> 32).toUInt32
  x14 := 0
  x15 := 0

/-- A block of the key stream: its first word, and the fifteen others. -/
def blockWords (key : Key) (block : UInt64) : UInt32 × List UInt32 :=
  let s := Matrix.start key block
  let m := s.doubleRound.doubleRound.doubleRound.doubleRound.doubleRound.doubleRound
  (m.x0 + s.x0,
    [m.x1 + s.x1, m.x2 + s.x2, m.x3 + s.x3, m.x4 + s.x4, m.x5 + s.x5, m.x6 + s.x6, m.x7 + s.x7,
      m.x8 + s.x8, m.x9 + s.x9, m.x10 + s.x10, m.x11 + s.x11, m.x12 + s.x12, m.x13 + s.x13,
      m.x14 + s.x14, m.x15 + s.x15])

/-- Where a key stream has got to: the words left of the current block, and the next block. -/
structure KeyStream where
  key : Key
  block : UInt64
  left : List UInt32
  deriving DecidableEq

namespace KeyStream

/-- The stream of a seed, from its start. -/
def ofSeed (seed : UInt64) : KeyStream where
  key := Key.ofSeed seed
  block := 0
  left := []

/-- Take one word, computing the next block when the current one is used up. -/
def next (stream : KeyStream) : UInt32 × KeyStream :=
  match stream.left with
  | word :: left => (word, { stream with left })
  | [] =>
    let (word, left) := blockWords stream.key stream.block
    (word, { stream with block := stream.block + 1, left })

instance : WordStream KeyStream where
  next := next

end KeyStream

end EvoSearch.Random
