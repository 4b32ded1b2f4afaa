import SidTune.Basic

/-!
# BLAKE3

The hash by which a packaged file is told from another. A message is cut into chunks of 1024 bytes
and these into blocks of 64; the blocks of a chunk are compressed one after the other, and the
chunks are joined by a binary tree whose left subtrees are complete. What tells the last compression
of the tree from all others is a flag, so every node is kept as the input of its compression until
it is known whether it is the last.

## Main definitions

* `SidTune.Blake3.compress`: the compression function.
* `SidTune.Blake3.Node`: the input of a compression, with its chaining value and its digest.
* `SidTune.Blake3.chunkNode`, `SidTune.Blake3.tree`: the nodes of a chunk and of a list of chunks.
* `SidTune.Blake3.hash`: the hash of a message.
-/

namespace SidTune.Blake3

/-- Sixteen words: a block of the message, or the state of a compression. -/
abbrev Words := Vector UInt32 16

/-- Eight words: the value that a compression is chained with. -/
abbrev Chain := Vector UInt32 8

/-! ### Compression -/

/-- The initial chaining value. -/
def initial : Chain :=
  #v[0x6A09E667, 0xBB67AE85, 0x3C6EF372, 0xA54FF53A, 0x510E527F, 0x9B05688C, 0x1F83D9AB, 0x5BE0CD19]

/-- A rotation to the right by fewer than 32 places. -/
def rotate (x n : UInt32) : UInt32 :=
  x >>> n ||| x <<< (32 - n)

/-- Mixes two message words into four words of the state. -/
def mix (s : Words) (a b c d : Fin 16) (x y : UInt32) : Words :=
  let s := s.set a (s[a] + s[b] + x)
  let s := s.set d (rotate (s[d] ^^^ s[a]) 16)
  let s := s.set c (s[c] + s[d])
  let s := s.set b (rotate (s[b] ^^^ s[c]) 12)
  let s := s.set a (s[a] + s[b] + y)
  let s := s.set d (rotate (s[d] ^^^ s[a]) 8)
  let s := s.set c (s[c] + s[d])
  s.set b (rotate (s[b] ^^^ s[c]) 7)

/-- Mixes a block into the columns and then the diagonals of the state. -/
def round (s m : Words) : Words :=
  let s := mix s 0 4 8 12 m[0] m[1]
  let s := mix s 1 5 9 13 m[2] m[3]
  let s := mix s 2 6 10 14 m[4] m[5]
  let s := mix s 3 7 11 15 m[6] m[7]
  let s := mix s 0 5 10 15 m[8] m[9]
  let s := mix s 1 6 11 12 m[10] m[11]
  let s := mix s 2 7 8 13 m[12] m[13]
  mix s 3 4 9 14 m[14] m[15]

/-- The order in which the next round takes the words of a block. -/
def permute (m : Words) : Words :=
  #v[m[2], m[6], m[3], m[10], m[7], m[0], m[4], m[13],
    m[1], m[11], m[12], m[5], m[9], m[14], m[15], m[8]]

/-- A number of rounds, the block being permuted in between. -/
def rounds : (count : Nat) → (s m : Words) → Words
  | 0, s, _ => s
  | count + 1, s, m => rounds count (round s m) (permute m)

/-- The compression function: the chaining value that follows a block. -/
def compress (chain : Chain) (block : Words) (counter : UInt64) (length flags : UInt32) : Chain :=
  let s : Words := #v[chain[0], chain[1], chain[2], chain[3], chain[4], chain[5], chain[6],
    chain[7], initial[0], initial[1], initial[2], initial[3], counter.toUInt32,
    (counter >>> 32).toUInt32, length, flags]
  let s := rounds 7 s block
  Vector.ofFn fun i => s[i.val] ^^^ s[i.val + 8]

/-! ### Nodes -/

/-- The flag of the first block of a chunk. -/
def chunkStart : UInt32 := 1

/-- The flag of the last block of a chunk. -/
def chunkEnd : UInt32 := 2

/-- The flag of a node that joins two others. -/
def parentFlag : UInt32 := 4

/-- The flag of the last compression. -/
def rootFlag : UInt32 := 8

/-- The input of a compression. -/
structure Node where
  chain : Chain
  block : Words
  counter : UInt64
  length : UInt32
  flags : UInt32

/-- The chaining value of a node that is not the last. -/
def Node.value (n : Node) : Chain :=
  compress n.chain n.block n.counter n.length n.flags

/-- The bytes of a word, least significant first. -/
def wordBytes (w : UInt32) : Bytes :=
  [w.toUInt8, (w >>> 8).toUInt8, (w >>> 16).toUInt8, (w >>> 24).toUInt8]

/-- The digest of the last node. -/
def Node.digest (n : Node) : Bytes :=
  (compress n.chain n.block 0 n.length (n.flags ||| rootFlag)).toList.flatMap wordBytes

/-- The words of a block of at most 64 bytes, padded with zero bytes. -/
def blockWords (bytes : Bytes) : Words :=
  let padded := bytes.toArray
  Vector.ofFn fun i =>
    let byte (k : Nat) := (padded.getD (4 * i.val + k) 0).toUInt32
    byte 0 ||| byte 1 <<< 8 ||| byte 2 <<< 16 ||| byte 3 <<< 24

/-- The node of the blocks of a chunk from one with the given chaining value and flags on. -/
def blocksNode (counter : UInt64) (chain : Chain) (flags : UInt32) (bytes : Bytes) : Node :=
  let block := bytes.take 64
  let rest := bytes.drop 64
  let length := UInt32.ofNat block.length
  if rest.isEmpty then ⟨chain, blockWords block, counter, length, flags ||| chunkEnd⟩
  else blocksNode counter (compress chain (blockWords block) counter length flags) 0 rest
termination_by bytes.length
decreasing_by
  rename_i h
  simp only [rest, List.isEmpty_iff, List.drop_eq_nil_iff] at h
  simp only [List.length_drop]
  omega

/-- The node of a chunk of at most 1024 bytes. -/
def chunkNode (counter : Nat) (bytes : Bytes) : Node :=
  blocksNode (UInt64.ofNat counter) initial chunkStart bytes

/-- The node that joins two others. -/
def parentNode (left right : Node) : Node where
  chain := initial
  block := left.value ++ right.value
  counter := 0
  length := 64
  flags := parentFlag

/-! ### The tree -/

/-- Cuts a message into chunks. -/
def chunks (bytes : Bytes) : List Bytes :=
  let rest := bytes.drop 1024
  if rest.isEmpty then [bytes] else bytes.take 1024 :: chunks rest
termination_by bytes.length
decreasing_by
  rename_i h
  simp only [rest, List.isEmpty_iff, List.drop_eq_nil_iff] at h
  simp only [List.length_drop]
  omega

/-- The number of chunks in the left part of a tree of at least two: the largest power of two that
leaves some for the right part. -/
def leftCount (count : Nat) : Nat :=
  Nat.pow 2 (Nat.log2 (count - 1))

private theorem leftCount_pos (count : Nat) : 0 < leftCount count :=
  Nat.two_pow_pos _

private theorem leftCount_lt {count : Nat} (h : 2 ≤ count) : leftCount count < count := by
  have : Nat.pow 2 (Nat.log2 (count - 1)) ≤ count - 1 := Nat.log2_self_le (by omega)
  simp only [leftCount]
  omega

/-- The node of the tree of a list of chunk nodes. -/
def tree (nodes : List Node) : Node :=
  match nodes with
  | [] => chunkNode 0 []
  | [node] => node
  | a :: b :: rest =>
    let count := leftCount (rest.length + 2)
    parentNode (tree ((a :: b :: rest).take count)) (tree ((a :: b :: rest).drop count))
termination_by nodes.length
decreasing_by
  · have : leftCount (rest.length + 2) < rest.length + 2 := leftCount_lt (by omega)
    simp only [List.length_take, List.length_cons]
    omega
  · have := leftCount_pos (rest.length + 2)
    simp only [List.length_drop, List.length_cons]
    omega

/-- The hash of a message. -/
def hash (message : Bytes) : Bytes :=
  (tree ((chunks message).mapIdx chunkNode)).digest

end SidTune.Blake3
