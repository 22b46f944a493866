import MeteredSandbox.Bytes.LittleEndian

/-!
# Compression of blocks

BLAKE3 chews its input a block of 64 bytes at a time. A block is read as 16 words and mixed, under a
chaining value of 8 words, in seven rounds of additions, exclusive ors and rotations. Between two
rounds the words of the block change places.

A `Node` is a compression that is still to be done. Only whoever combines nodes knows whether one is
the root of its tree, so it is compressed as late as that.
-/

namespace MeteredSandbox.Blake3

/-- A chaining value. -/
abbrev Chain := Vector UInt32 8

/-- A block, and the words being mixed. -/
abbrev Words := Vector UInt32 16

/-- The chaining value that a tree starts from. -/
def start : Chain :=
  #v[0x6A09E667, 0xBB67AE85, 0x3C6EF372, 0xA54FF53A, 0x510E527F, 0x9B05688C, 0x1F83D9AB, 0x5BE0CD19]

/-- Where the words of a block come from after a round. -/
def schedule : Vector (Fin 16) 16 :=
  #v[2, 6, 3, 10, 7, 0, 4, 13, 1, 11, 12, 5, 9, 14, 15, 8]

/-- The block for the next round. -/
def permute (block : Words) : Words := schedule.map fun i => block[i]

/-- The word rotated to the right by `count` bits, for `0 < count < 32`. -/
def rotateRight (word count : UInt32) : UInt32 :=
  (word >>> count) ||| (word <<< (32 - count))

/-- Mixes four of the words, with two words of the block. -/
def mix (w : Words) (a b c d : Fin 16) (x y : UInt32) : Words :=
  let wa := w[a] + w[b] + x
  let wd := rotateRight (w[d] ^^^ wa) 16
  let wc := w[c] + wd
  let wb := rotateRight (w[b] ^^^ wc) 12
  let wa := wa + wb + y
  let wd := rotateRight (wd ^^^ wa) 8
  let wc := wc + wd
  let wb := rotateRight (wb ^^^ wc) 7
  (((w.set a wa).set b wb).set c wc).set d wd

/-- One round: the columns of the four by four square of words, then its diagonals. -/
def round (w m : Words) : Words :=
  let w := mix w 0 4 8 12 m[0] m[1]
  let w := mix w 1 5 9 13 m[2] m[3]
  let w := mix w 2 6 10 14 m[4] m[5]
  let w := mix w 3 7 11 15 m[6] m[7]
  let w := mix w 0 5 10 15 m[8] m[9]
  let w := mix w 1 6 11 12 m[10] m[11]
  let w := mix w 2 7 8 13 m[12] m[13]
  mix w 3 4 9 14 m[14] m[15]

/-- Some rounds, and the words of the block changing places after each. -/
def rounds : Nat → Words → Words → Words
  | 0, w, _ => w
  | n + 1, w, m => rounds n (round w m) (permute m)

/-- What a node is part of. -/
structure Role where
  isChunkStart : Bool := false
  isChunkEnd : Bool := false
  isParent : Bool := false
  deriving DecidableEq

/-- A compression that is still to be done. -/
structure Node where
  chain : Chain
  block : Words
  /-- How many bytes of the block belong to the input. -/
  length : Nat
  /-- The number of the chunk that the block is in. -/
  chunk : Nat
  role : Role

namespace Node

/-- The bits that say what a node is part of. -/
def flags (n : Node) (isRoot : Bool) : UInt32 :=
  (if n.role.isChunkStart then 1 else 0) + (if n.role.isChunkEnd then 2 else 0)
    + (if n.role.isParent then 4 else 0) + (if isRoot then 8 else 0)

/-- The compression: the words are mixed, and the two halves of the square combined. -/
def compress (n : Node) (isRoot : Bool) : Chain :=
  let initial : Words := n.chain ++ #v[
    start[0], start[1], start[2], start[3],
    -- the chunk is counted in 64 bits, the low half first
    UInt32.ofNat n.chunk, UInt32.ofNat (n.chunk / 0x1_0000_0000),
    UInt32.ofNat n.length, n.flags isRoot]
  let w := rounds 7 initial n.block
  Vector.ofFn fun i : Fin 8 => w[i.val] ^^^ w[i.val + 8]

/-- The chaining value of a node below the root. -/
def chainingValue (n : Node) : Chain := n.compress false

/-- The 32 bytes of a tree with this root. -/
def rootBytes (n : Node) : List UInt8 :=
  (n.compress true).toList.flatMap fun w => LittleEndian.ofNat 4 w.toNat

end Node

/-- The words of at most 64 bytes, filled up with zeros. -/
def words (bytes : List UInt8) : Words :=
  let a := bytes.toArray
  Vector.ofFn fun i : Fin 16 =>
    UInt32.ofNat (LittleEndian.toNat ((List.range 4).map fun j => a[4 * i.val + j]?.getD 0))

end MeteredSandbox.Blake3
