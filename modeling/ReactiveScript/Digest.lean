/-!
# BLAKE3

The hash that unit ids are cut from.  The input is cut into chunks of 1024 bytes and each chunk
into blocks of 64 bytes; the blocks of a chunk are compressed one after the other, each starting
from the chaining value of the one before, and the chunks are the leaves of a binary tree whose
inner nodes compress the two chaining values below them.  The left subtree of a node is complete
and as large as it can be.

* `Digest.compress` — one compression: seven rounds over a state of sixteen words.
* `Digest.leaf`, `Digest.tree` — the node of a chunk and of a list of chunks.  The root is
  compressed once more with its own flag.
* `Digest.hash` — the first thirty-two bytes of output.
-/

set_option autoImplicit false

namespace ReactiveScript

namespace Digest

/-! ## Compression -/

/-- The initial chaining value. -/
def initial : List UInt32 :=
  [0x6A09E667, 0xBB67AE85, 0x3C6EF372, 0xA54FF53A, 0x510E527F, 0x9B05688C, 0x1F83D9AB, 0x5BE0CD19]

/-- First block of a chunk. -/
def chunkStart : UInt32 := 1

/-- Last block of a chunk. -/
def chunkEnd : UInt32 := 2

/-- Inner node of the tree. -/
def parent : UInt32 := 4

/-- Root of the tree. -/
def root : UInt32 := 8

/-- A word rotated to the right. -/
def rotate (x : UInt32) (n : UInt32) : UInt32 := (x >>> n) ||| (x <<< (32 - n))

/-- One quarter-round: four words of the state and two of the message. -/
def mix (a b c d x y : UInt32) : UInt32 × UInt32 × UInt32 × UInt32 :=
  let a := a + b + x
  let d := rotate (d ^^^ a) 16
  let c := c + d
  let b := rotate (b ^^^ c) 12
  let a := a + b + y
  let d := rotate (d ^^^ a) 8
  let c := c + d
  let b := rotate (b ^^^ c) 7
  (a, b, c, d)

/-- Where the words of the message go between two rounds. -/
def permutation : List Nat := [2, 6, 3, 10, 7, 0, 4, 13, 1, 11, 12, 5, 9, 14, 15, 8]

/-- The message words for the next round. -/
def permute (m : Array UInt32) : Array UInt32 :=
  (permutation.map fun i => m.getD i 0).toArray

/-- One round: four quarter-rounds on the columns of the state and four on its diagonals. -/
def round (s m : Array UInt32) : Array UInt32 :=
  let w (i : Nat) := m.getD i 0
  let v (i : Nat) := s.getD i 0
  let (a0, b0, c0, d0) := mix (v 0) (v 4) (v 8) (v 12) (w 0) (w 1)
  let (a1, b1, c1, d1) := mix (v 1) (v 5) (v 9) (v 13) (w 2) (w 3)
  let (a2, b2, c2, d2) := mix (v 2) (v 6) (v 10) (v 14) (w 4) (w 5)
  let (a3, b3, c3, d3) := mix (v 3) (v 7) (v 11) (v 15) (w 6) (w 7)
  let (a0, b1, c2, d3) := mix a0 b1 c2 d3 (w 8) (w 9)
  let (a1, b2, c3, d0) := mix a1 b2 c3 d0 (w 10) (w 11)
  let (a2, b3, c0, d1) := mix a2 b3 c0 d1 (w 12) (w 13)
  let (a3, b0, c1, d2) := mix a3 b0 c1 d2 (w 14) (w 15)
  #[a0, a1, a2, a3, b0, b1, b2, b3, c0, c1, c2, c3, d0, d1, d2, d3]

/-- `n` rounds, the message permuted after each. -/
def rounds : Nat → Array UInt32 → Array UInt32 → Array UInt32
  | 0, s, _ => s
  | n + 1, s, m => rounds n (round s m) (permute m)

/-- Compress a block of sixteen words from a chaining value.  `counter` is the number of the chunk,
`length` the number of bytes in the block. -/
def compress (cv : List UInt32) (block : List UInt32) (counter : Nat) (length : Nat)
    (flags : UInt32) : List UInt32 :=
  let start := (cv ++ initial.take 4 ++
    [UInt32.ofNat counter, UInt32.ofNat (counter / Nat.pow 2 32), UInt32.ofNat length,
      flags]).toArray
  let s := (rounds 7 start block.toArray).toList
  let low := s.take 8
  let high := s.drop 8
  List.zipWith (· ^^^ ·) low high ++ List.zipWith (· ^^^ ·) high cv

/-! ## The tree -/

/-- A compression that still lacks its flag: whether it is the root is known only at the end. -/
structure Node where
  /-- The chaining value to start from. -/
  cv : List UInt32
  /-- The block to compress. -/
  block : List UInt32
  /-- The number of the chunk, zero for an inner node. -/
  counter : Nat
  /-- The number of bytes in the block. -/
  length : Nat
  /-- The flags of the compression. -/
  flags : UInt32

/-- The chaining value that a node passes up. -/
def Node.chaining (n : Node) : List UInt32 :=
  (compress n.cv n.block n.counter n.length n.flags).take 8

/-- The first eight output words of a node that is the root. -/
def Node.output (n : Node) : List UInt32 :=
  (compress n.cv n.block n.counter n.length (n.flags ||| root)).take 8

/-- The sixteen little-endian words of a block, padded with zero bytes. -/
def words (bytes : List UInt8) : List UInt32 :=
  (List.range 16).map fun i =>
    match bytes.drop (4 * i) with
    | a :: b :: c :: d :: _ =>
      a.toUInt32 ||| (b.toUInt32 <<< 8) ||| (c.toUInt32 <<< 16) ||| (d.toUInt32 <<< 24)
    | [a, b, c] => a.toUInt32 ||| (b.toUInt32 <<< 8) ||| (c.toUInt32 <<< 16)
    | [a, b] => a.toUInt32 ||| (b.toUInt32 <<< 8)
    | [a] => a.toUInt32
    | [] => 0

/-- Cut a list into pieces of `n` elements, the last one shorter. -/
def pieces {α : Type} (n : Nat) (xs : List α) : List (List α) :=
  if _h : n = 0 ∨ xs.length ≤ n then [xs]
  else xs.take n :: pieces n (xs.drop n)
termination_by xs.length
decreasing_by simp only [List.length_drop]; omega

/-- The node of a chunk, given its blocks: all but the last are compressed on the way. -/
def leafFrom (counter : Nat) (cv : List UInt32) (flags : UInt32) : List (List UInt8) → Node
  | [] => ⟨cv, words [], counter, 0, flags ||| chunkEnd⟩
  | [block] => ⟨cv, words block, counter, block.length, flags ||| chunkEnd⟩
  | block :: rest =>
    leafFrom counter ((compress cv (words block) counter 64 flags).take 8) 0 rest

/-- The node of a chunk. -/
def leaf (counter : Nat) (chunk : List UInt8) : Node :=
  leafFrom counter initial chunkStart (pieces 64 chunk)

/-- How many of `n` chunks go to the left: the largest power of two below `n`. -/
def leftSize (n : Nat) : Nat := Nat.pow 2 (n - 1).log2

/-- The node over a list of chunks numbered from `counter` on. -/
def tree (counter : Nat) (chunks : List (List UInt8)) : Node :=
  if _h : chunks.length ≤ 1 then leaf counter chunks.flatten
  else
    let k := leftSize chunks.length
    let left := tree counter (chunks.take k)
    let right := tree (counter + k) (chunks.drop k)
    ⟨initial, left.chaining ++ right.chaining, 0, 64, parent⟩
termination_by chunks.length
decreasing_by
  all_goals
    have hk : Nat.pow 2 (chunks.length - 1).log2 ≤ chunks.length - 1 := Nat.log2_self_le (by omega)
    have hp : 0 < Nat.pow 2 (chunks.length - 1).log2 := Nat.two_pow_pos _
    simp only [leftSize, List.length_take, List.length_drop]
    omega

/-- The bytes of a word, least significant first. -/
def littleEndian (w : UInt32) : List UInt8 :=
  [w.toUInt8, (w >>> 8).toUInt8, (w >>> 16).toUInt8, (w >>> 24).toUInt8]

/-- The hash of a list of bytes. -/
def hash (bytes : List UInt8) : List UInt8 :=
  (tree 0 (pieces 1024 bytes)).output.flatMap littleEndian

/-- Two lower-case hexadecimal digits per byte. -/
def hex (bytes : List UInt8) : String :=
  String.ofList (bytes.flatMap fun b =>
    [Nat.digitChar (b.toNat / 16), Nat.digitChar (b.toNat % 16)])

end Digest

end ReactiveScript
