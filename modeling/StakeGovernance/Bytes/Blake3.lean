import StakeGovernance.Bytes.Endian
import StakeGovernance.Bytes.Pieces

/-!
# The BLAKE3 digest

BLAKE3 cuts its input into chunks of 1024 bytes and each chunk into blocks of 64
bytes. The blocks of a chunk are compressed one after the other into a chaining
value, and the chaining values of the chunks are the leaves of a binary tree whose
root gives the digest.

* `StakeGovernance.Blake3.compress` – the **compression function**, seven rounds
  on sixteen words;
* `StakeGovernance.Blake3.Node` – a **node** of the tree, held back just before its
  last compression, because only then is it known whether it is the root;
* `StakeGovernance.Blake3.root` – the tree: neighbours are joined level by level,
  and a node without a neighbour moves up as it is, so that each left subtree is
  complete;
* `StakeGovernance.Blake3.digest` – the **digest**, 32 bytes.
-/

namespace StakeGovernance.Blake3

/-- Eight words: a chaining value, or the initial vector. -/
abbrev Chain := Vector UInt32 8

/-- Sixteen words: a message block, or the state of the compression. -/
abbrev Block := Vector UInt32 16

/-- The initial vector. -/
def iv : Chain :=
  #v[0x6A09E667, 0xBB67AE85, 0x3C6EF372, 0xA54FF53A, 0x510E527F, 0x9B05688C, 0x1F83D9AB, 0x5BE0CD19]

/-! ### Flags -/

/-- Marks the first block of a chunk. -/
def chunkStart : UInt32 := 1

/-- Marks the last block of a chunk. -/
def chunkEnd : UInt32 := 2

/-- Marks an inner node of the tree. -/
def parentNode : UInt32 := 4

/-- Marks the root. -/
def rootNode : UInt32 := 8

/-! ### The compression function -/

/-- The word `x` rotated right by `n` bits. -/
def rotateRight (x n : UInt32) : UInt32 := (x >>> n) ||| (x <<< (32 - n))

/-- Mixes two message words into four words of the state. -/
def mix (s : Block) (a b c d : Fin 16) (x y : UInt32) : Block :=
  let s := s.set a (s[a] + s[b] + x)
  let s := s.set d (rotateRight (s[d] ^^^ s[a]) 16)
  let s := s.set c (s[c] + s[d])
  let s := s.set b (rotateRight (s[b] ^^^ s[c]) 12)
  let s := s.set a (s[a] + s[b] + y)
  let s := s.set d (rotateRight (s[d] ^^^ s[a]) 8)
  let s := s.set c (s[c] + s[d])
  s.set b (rotateRight (s[b] ^^^ s[c]) 7)

/-- One round: the columns of the state, then its diagonals. -/
def round (s m : Block) : Block :=
  -- the columns
  let s := mix s 0 4 8 12 m[0] m[1]
  let s := mix s 1 5 9 13 m[2] m[3]
  let s := mix s 2 6 10 14 m[4] m[5]
  let s := mix s 3 7 11 15 m[6] m[7]
  -- the diagonals
  let s := mix s 0 5 10 15 m[8] m[9]
  let s := mix s 1 6 11 12 m[10] m[11]
  let s := mix s 2 7 8 13 m[12] m[13]
  mix s 3 4 9 14 m[14] m[15]

/-- The order in which the next round reads the message words. -/
def permute (m : Block) : Block :=
  #v[m[2], m[6], m[3], m[10], m[7], m[0], m[4], m[13],
    m[1], m[11], m[12], m[5], m[9], m[14], m[15], m[8]]

/-- The given number of rounds, the message permuted between them. -/
def rounds : Nat → Block → Block → Block
  | 0, s, _ => s
  | n + 1, s, m => rounds n (round s m) (permute m)

/-- **The compression function**, up to the eight words that a chaining value or a
32-byte digest needs. -/
def compress (chain : Chain) (block : Block) (counter : UInt64) (length flags : UInt32) : Chain :=
  let s : Block := rounds 7
    #v[chain[0], chain[1], chain[2], chain[3], chain[4], chain[5], chain[6], chain[7],
      iv[0], iv[1], iv[2], iv[3],
      counter.toUInt32, (counter >>> 32).toUInt32, length, flags] block
  #v[s[0] ^^^ s[8], s[1] ^^^ s[9], s[2] ^^^ s[10], s[3] ^^^ s[11],
    s[4] ^^^ s[12], s[5] ^^^ s[13], s[6] ^^^ s[14], s[7] ^^^ s[15]]

/-! ### Blocks and chunks -/

/-- The sixteen words of a block of at most 64 bytes, zeros filling it up. -/
def blockOfBytes (bs : Bytes) : Block :=
  let words := (pieces 4 bs).map fun w => UInt32.ofNat (ofLittleEndian w)
  let padded := (words ++ List.replicate 16 0).toArray
  Vector.ofFn fun i : Fin 16 => padded[i]?.getD 0

/-- **A node** of the tree before its last compression. -/
structure Node where
  chain : Chain
  block : Block
  counter : UInt64
  length : UInt32
  flags : UInt32

/-- The chaining value of a node that is not the root. -/
def Node.chainingValue (n : Node) : Chain := compress n.chain n.block n.counter n.length n.flags

/-- The chaining value of the root, the first eight words of the output. -/
def Node.rootValue (n : Node) : Chain :=
  compress n.chain n.block n.counter n.length (n.flags ||| rootNode)

/-- The leaf for chunk number `counter`: every block but the last is compressed
into the chaining value. -/
def leaf (counter : UInt64) (chunk : Bytes) : Node :=
  go iv chunkStart (pieces 64 chunk)
where
  /-- `flags` is `chunkStart` for the first block and nothing after it. -/
  go (chain : Chain) (flags : UInt32) : List Bytes → Node
    | [] => ⟨chain, blockOfBytes [], counter, 0, flags ||| chunkEnd⟩
    | [last] => ⟨chain, blockOfBytes last, counter, UInt32.ofNat last.length, flags ||| chunkEnd⟩
    | b :: bs => go (compress chain (blockOfBytes b) counter 64 flags) 0 bs

/-- The node above two neighbours. -/
def parent (left right : Node) : Node :=
  let l := left.chainingValue
  let r := right.chainingValue
  ⟨iv, (l ++ r : Vector UInt32 (8 + 8)), 0, 64, parentNode⟩

/-- One level up: neighbours are joined, a last node without a neighbour stays. -/
def level : List Node → List Node
  | l :: r :: rest => parent l r :: level rest
  | rest => rest

/-- The root above a non-empty row of nodes. Each level halves the row, so `fuel`
levels are enough for `fuel` nodes. -/
def root (first : Node) : Nat → List Node → Node
  | 0, _ => first
  | fuel + 1, row =>
    -- a row of one node is its own level, so a single leaf is the root at once
    match level row with
    | [top] => top
    | next => root first fuel next

/-- **The digest**: 32 bytes. Without any input there is one empty chunk. -/
def digest (input : Bytes) : Bytes :=
  let leaves := (pieces 1024 input).zipIdx.map fun (chunk, i) => leaf (UInt64.ofNat i) chunk
  let top := root (leaf 0 []) leaves.length leaves
  top.rootValue.toList.flatMap fun w => littleEndian 4 w.toNat

theorem length_digest (input : Bytes) : (digest input).length = 32 := by
  have h : ∀ ws : List UInt32,
      (ws.flatMap fun w => littleEndian 4 w.toNat).length = 4 * ws.length := by
    intro ws
    induction ws with
    | nil => rfl
    | cons w ws ih => simp only [List.flatMap_cons, List.length_append, length_littleEndian, ih,
        List.length_cons]; omega
  unfold digest
  simp [h]

end StakeGovernance.Blake3
