import MeteredSandbox.Digest.Compression

/-!
# The tree of chunks

BLAKE3 cuts its input into chunks of 1024 bytes and compresses each on its own. The chunks are the
leaves of a binary tree; the left half of a tree always has a power of two of full chunks, and as
many as leave at least one byte for the right half. The digest comes from the root.
-/

namespace MeteredSandbox.Blake3

/-- The node of a chunk from some block on: blocks of 64 bytes are compressed in turn, and the last
one, which may be shorter, is the node. -/
def blockNode (chunk : Nat) (chain : Chain) (isChunkStart : Bool) (bytes : List UInt8) : Node :=
  if bytes.length ≤ 64 then
    { chain, block := words bytes, length := bytes.length, chunk
      role := { isChunkStart, isChunkEnd := true } }
  else
    let first : Node :=
      { chain, block := words (bytes.take 64), length := 64, chunk, role := { isChunkStart } }
    blockNode chunk first.chainingValue false (bytes.drop 64)
termination_by bytes.length
decreasing_by simp only [List.length_drop]; omega

/-- The node above two others. -/
def parent (left right : Node) : Node where
  chain := start
  block := left.chainingValue ++ right.chainingValue
  length := 64
  chunk := 0
  role := { isParent := true }

/-- How many of `size` bytes are in the left half, for `1024 < size`: the greatest power of two
below `size`. -/
def leftSize (size : Nat) : Nat := Nat.pow 2 (size - 1).log2

theorem leftSize_pos (size : Nat) : 0 < leftSize size := Nat.two_pow_pos _

theorem leftSize_lt (size : Nat) (h : 1 < size) : leftSize size < size := by
  have : leftSize size ≤ size - 1 := Nat.log2_self_le (by omega)
  omega

/-- The node of a subtree, the first chunk of which has the number `chunk`. -/
def treeNode (chunk : Nat) (bytes : List UInt8) : Node :=
  if bytes.length ≤ 1024 then blockNode chunk start true bytes
  else
    let size := leftSize bytes.length
    parent (treeNode chunk (bytes.take size)) (treeNode (chunk + size / 1024) (bytes.drop size))
termination_by bytes.length
decreasing_by
  · have := leftSize_lt bytes.length (by omega)
    simp only [List.length_take]
    omega
  · have := leftSize_pos bytes.length
    simp only [List.length_drop]
    omega

/-- The digest of some bytes. -/
def hash (bytes : List UInt8) : List UInt8 := (treeNode 0 bytes).rootBytes

@[simp] theorem length_hash (bytes : List UInt8) : (hash bytes).length = 32 := by
  simp [hash, Node.rootBytes, List.length_flatMap, List.map_const']

end MeteredSandbox.Blake3
