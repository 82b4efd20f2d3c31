/-
# BLAKE3

The digest of a byte string. The bytes fall into chunks of 1024 and a chunk into blocks of 64.
Each chunk is compressed block by block; the chunks are the leaves of a binary tree whose left
subtrees are complete and as large as possible, and the root is compressed with a flag of its own.
The digest is 256 bits, written as hexadecimal digits.
-/

namespace ContractBlocks
namespace Digest

/-- Eight words: a chaining value. -/
structure Words8 where
  w0 : UInt32
  w1 : UInt32
  w2 : UInt32
  w3 : UInt32
  w4 : UInt32
  w5 : UInt32
  w6 : UInt32
  w7 : UInt32
deriving DecidableEq, Repr

/-- Sixteen words in two halves: a block, or the state of a compression. -/
structure Words16 where
  low : Words8
  high : Words8
deriving DecidableEq, Repr

/-- The initial chaining value. -/
def start : Words8 :=
  ⟨0x6a09e667, 0xbb67ae85, 0x3c6ef372, 0xa54ff53a, 0x510e527f, 0x9b05688c, 0x1f83d9ab, 0x5be0cd19⟩

/-- The flag of the first block of a chunk. -/
def chunkStart : UInt32 := 1

/-- The flag of the last block of a chunk. -/
def chunkEnd : UInt32 := 2

/-- The flag of an inner node of the tree. -/
def parentNode : UInt32 := 4

/-- The flag of the root of the tree. -/
def rootNode : UInt32 := 8

/-- Rotates a word to the right by a number of bits from 1 to 31. -/
@[inline]
def rotateRight (x n : UInt32) : UInt32 := (x >>> n) ||| (x <<< (32 - n))

/-- Mixes two words of the message into four words of the state. -/
@[inline]
def mix (a b c d x y : UInt32) : UInt32 × UInt32 × UInt32 × UInt32 :=
  let a := a + b + x
  let d := rotateRight (d ^^^ a) 16
  let c := c + d
  let b := rotateRight (b ^^^ c) 12
  let a := a + b + y
  let d := rotateRight (d ^^^ a) 8
  let c := c + d
  let b := rotateRight (b ^^^ c) 7
  (a, b, c, d)

/-- One round: the message is mixed into the columns of the state and then into its diagonals. -/
def round (s m : Words16) : Words16 :=
  let (a0, b0, c0, d0) := mix s.low.w0 s.low.w4 s.high.w0 s.high.w4 m.low.w0 m.low.w1
  let (a1, b1, c1, d1) := mix s.low.w1 s.low.w5 s.high.w1 s.high.w5 m.low.w2 m.low.w3
  let (a2, b2, c2, d2) := mix s.low.w2 s.low.w6 s.high.w2 s.high.w6 m.low.w4 m.low.w5
  let (a3, b3, c3, d3) := mix s.low.w3 s.low.w7 s.high.w3 s.high.w7 m.low.w6 m.low.w7
  let (a0, b1, c2, d3) := mix a0 b1 c2 d3 m.high.w0 m.high.w1
  let (a1, b2, c3, d0) := mix a1 b2 c3 d0 m.high.w2 m.high.w3
  let (a2, b3, c0, d1) := mix a2 b3 c0 d1 m.high.w4 m.high.w5
  let (a3, b0, c1, d2) := mix a3 b0 c1 d2 m.high.w6 m.high.w7
  ⟨⟨a0, a1, a2, a3, b0, b1, b2, b3⟩, ⟨c0, c1, c2, c3, d0, d1, d2, d3⟩⟩

/-- The order of the message words in the next round. -/
def permute (m : Words16) : Words16 :=
  ⟨⟨m.low.w2, m.low.w6, m.low.w3, m.high.w2, m.low.w7, m.low.w0, m.low.w4, m.high.w5⟩,
    ⟨m.low.w1, m.high.w3, m.high.w4, m.low.w5, m.high.w1, m.high.w6, m.high.w7, m.high.w0⟩⟩

/-- The given number of rounds. -/
def rounds : Nat → Words16 → Words16 → Words16
  | 0, s, _ => s
  | n + 1, s, m => rounds n (round s m) (permute m)

/-- What one compression needs. -/
structure Node where
  chaining : Words8
  block : Words16
  counter : UInt64
  /-- The number of bytes in the block. -/
  length : UInt32
  flags : UInt32
deriving DecidableEq, Repr

/-- The compression of a node with further flags. -/
def Node.compress (n : Node) (flags : UInt32) : Words8 :=
  let s : Words16 := ⟨n.chaining, ⟨start.w0, start.w1, start.w2, start.w3, n.counter.toUInt32,
    (n.counter >>> 32).toUInt32, n.length, n.flags ||| flags⟩⟩
  let r := rounds 7 s n.block
  ⟨r.low.w0 ^^^ r.high.w0, r.low.w1 ^^^ r.high.w1, r.low.w2 ^^^ r.high.w2, r.low.w3 ^^^ r.high.w3,
    r.low.w4 ^^^ r.high.w4, r.low.w5 ^^^ r.high.w5, r.low.w6 ^^^ r.high.w6, r.low.w7 ^^^ r.high.w7⟩

/-- The byte at an index, zero behind the end. -/
@[inline]
def byteAt (data : ByteArray) (i : Nat) : UInt32 :=
  if h : i < data.size then data[i].toUInt32 else 0

/-- The little-endian word at an index. -/
def wordAt (data : ByteArray) (i : Nat) : UInt32 :=
  byteAt data i ||| (byteAt data (i + 1) <<< 8) ||| (byteAt data (i + 2) <<< 16)
    ||| (byteAt data (i + 3) <<< 24)

/-- The eight words at an index. -/
def words8At (data : ByteArray) (i : Nat) : Words8 :=
  ⟨wordAt data i, wordAt data (i + 4), wordAt data (i + 8), wordAt data (i + 12),
    wordAt data (i + 16), wordAt data (i + 20), wordAt data (i + 24), wordAt data (i + 28)⟩

/-- The node of the block at an index, with its chaining value and flags. -/
def blockNode (data : ByteArray) (chunk i : Nat) (chaining : Words8) (flags : UInt32) : Node where
  chaining := chaining
  block := ⟨words8At data i, words8At data (i + 32)⟩
  counter := chunk.toUInt64
  length := (min 64 (data.size - i)).toUInt32
  flags := flags

/-- The last node of a chunk, of which `more` blocks follow the one at the index. -/
def chunkNode (data : ByteArray) (chunk : Nat) : Nat → Nat → Words8 → UInt32 → Node
  | 0, i, chaining, flags => blockNode data chunk i chaining (flags ||| chunkEnd)
  | more + 1, i, chaining, flags =>
    chunkNode data chunk more (i + 64) ((blockNode data chunk i chaining flags).compress 0) 0

/-- The number of blocks behind the first in a chunk. -/
def furtherBlocks (data : ByteArray) (chunk : Nat) : Nat :=
  (min 1024 (data.size - 1024 * chunk) - 1) / 64

/-- The inner node over two subtrees. -/
def parent (left right : Node) : Node where
  chaining := start
  block := ⟨left.compress 0, right.compress 0⟩
  counter := 0
  length := 64
  flags := parentNode

/-- The node of a subtree of `count` chunks from `chunk` on. -/
def subtree (data : ByteArray) (chunk count : Nat) : Node :=
  if _h : count ≤ 1 then
    chunkNode data chunk (furtherBlocks data chunk) (1024 * chunk) start chunkStart
  else
    let left := 1 <<< (count - 1).log2
    parent (subtree data chunk left) (subtree data (chunk + left) (count - left))
termination_by count
decreasing_by
  · have h : count - 1 ≠ 0 := by omega
    have := Nat.log2_self_le h
    rw [Nat.one_shiftLeft]
    omega
  · have := Nat.two_pow_pos (count - 1).log2
    rw [Nat.one_shiftLeft]
    omega

/-- A byte as two hexadecimal digits. -/
def hexByte (w shift : UInt32) : List Char :=
  let b := ((w >>> shift) &&& 0xff).toNat
  [Nat.digitChar (b / 16), Nat.digitChar (b % 16)]

/-- The bytes of a word, the lowest first. -/
def hexWord (w : UInt32) : List Char := hexByte w 0 ++ hexByte w 8 ++ hexByte w 16 ++ hexByte w 24

/-- The digest of a byte string. -/
def ofBytes (data : ByteArray) : String :=
  let w := (subtree data 0 ((data.size + 1023) / 1024)).compress rootNode
  String.ofList ([w.w0, w.w1, w.w2, w.w3, w.w4, w.w5, w.w6, w.w7].flatMap hexWord)

/-- The digest of a text in UTF-8. -/
def ofText (s : String) : String := ofBytes s.toUTF8

end Digest
end ContractBlocks
