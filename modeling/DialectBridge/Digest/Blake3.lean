/-!
# BLAKE3

The hash of a byte string: the string is cut into chunks of 1024 bytes, each chunk into blocks of
64 bytes that are compressed one after the other, and the chunks are the leaves of a binary tree
whose left subtrees are full.  `hash` gives the first 32 bytes of the output.
-/

namespace DialectBridge.Blake3

/-- Eight words that carry the result of a compression to the next one. -/
structure Chain where
  h0 : UInt32
  h1 : UInt32
  h2 : UInt32
  h3 : UInt32
  h4 : UInt32
  h5 : UInt32
  h6 : UInt32
  h7 : UInt32
  deriving DecidableEq, Repr, Inhabited

/-- The chain every chunk and every parent starts from. -/
def Chain.initial : Chain :=
  ⟨0x6A09E667, 0xBB67AE85, 0x3C6EF372, 0xA54FF53A, 0x510E527F, 0x9B05688C, 0x1F83D9AB, 0x5BE0CD19⟩

/-- The words of a chain. -/
def Chain.words (c : Chain) : List UInt32 :=
  [c.h0, c.h1, c.h2, c.h3, c.h4, c.h5, c.h6, c.h7]

/-- The sixteen words a compression works on, as four rows. -/
structure State where
  a0 : UInt32
  a1 : UInt32
  a2 : UInt32
  a3 : UInt32
  b0 : UInt32
  b1 : UInt32
  b2 : UInt32
  b3 : UInt32
  c0 : UInt32
  c1 : UInt32
  c2 : UInt32
  c3 : UInt32
  d0 : UInt32
  d1 : UInt32
  d2 : UInt32
  d3 : UInt32
  deriving DecidableEq, Repr

/-- Rotation to the right. -/
def rotate (x : UInt32) (n : UInt32) : UInt32 :=
  (x >>> n) ||| (x <<< (32 - n))

/-- Mixes two message words into a column or diagonal. -/
def mix (a b c d x y : UInt32) : UInt32 × UInt32 × UInt32 × UInt32 :=
  let a := a + b + x
  let d := rotate (d ^^^ a) 16
  let c := c + d
  let b := rotate (b ^^^ c) 12
  let a := a + b + y
  let d := rotate (d ^^^ a) 8
  let c := c + d
  let b := rotate (b ^^^ c) 7
  (a, b, c, d)

/-- Sixteen message words. -/
abbrev Message := Vector UInt32 16

/-- One round: the columns, then the diagonals. -/
def round (s : State) (m : Message) : State :=
  let (a0, b0, c0, d0) := mix s.a0 s.b0 s.c0 s.d0 m[0] m[1]
  let (a1, b1, c1, d1) := mix s.a1 s.b1 s.c1 s.d1 m[2] m[3]
  let (a2, b2, c2, d2) := mix s.a2 s.b2 s.c2 s.d2 m[4] m[5]
  let (a3, b3, c3, d3) := mix s.a3 s.b3 s.c3 s.d3 m[6] m[7]
  let (a0, b1, c2, d3) := mix a0 b1 c2 d3 m[8] m[9]
  let (a1, b2, c3, d0) := mix a1 b2 c3 d0 m[10] m[11]
  let (a2, b3, c0, d1) := mix a2 b3 c0 d1 m[12] m[13]
  let (a3, b0, c1, d2) := mix a3 b0 c1 d2 m[14] m[15]
  ⟨a0, a1, a2, a3, b0, b1, b2, b3, c0, c1, c2, c3, d0, d1, d2, d3⟩

/-- The order of the message words in the next round. -/
def permute (m : Message) : Message :=
  #v[m[2], m[6], m[3], m[10], m[7], m[0], m[4], m[13],
     m[1], m[11], m[12], m[5], m[9], m[14], m[15], m[8]]

/-- `n` rounds, the message reordered between them. -/
def rounds : Nat → State → Message → State
  | 0, s, _ => s
  | n + 1, s, m => rounds n (round s m) (permute m)

/-- Flag of the first block of a chunk. -/
def chunkStart : UInt32 := 1

/-- Flag of the last block of a chunk. -/
def chunkEnd : UInt32 := 2

/-- Flag of the parent of two subtrees. -/
def parentFlag : UInt32 := 4

/-- Flag of the root of the tree. -/
def rootFlag : UInt32 := 8

/-- Compresses a block of `length` bytes into a chain; `counter` is the number of the chunk. -/
def compress (chain : Chain) (m : Message) (counter : UInt64) (length : UInt32) (flags : UInt32) :
    Chain :=
  let s := rounds 7
    ⟨chain.h0, chain.h1, chain.h2, chain.h3, chain.h4, chain.h5, chain.h6, chain.h7,
     0x6A09E667, 0xBB67AE85, 0x3C6EF372, 0xA54FF53A,
     counter.toUInt32, (counter >>> 32).toUInt32, length, flags⟩ m
  ⟨s.a0 ^^^ s.c0, s.a1 ^^^ s.c1, s.a2 ^^^ s.c2, s.a3 ^^^ s.c3,
   s.b0 ^^^ s.d0, s.b1 ^^^ s.d1, s.b2 ^^^ s.d2, s.b3 ^^^ s.d3⟩

/-- The little-endian word at a byte position, with zeros past the end. -/
def wordAt (bytes : Array UInt8) (i : Nat) : UInt32 :=
  (bytes.getD i 0).toUInt32 ||| ((bytes.getD (i + 1) 0).toUInt32 <<< 8) |||
    ((bytes.getD (i + 2) 0).toUInt32 <<< 16) ||| ((bytes.getD (i + 3) 0).toUInt32 <<< 24)

/-- The message words of a block of at most 64 bytes. -/
def message (block : List UInt8) : Message :=
  let bytes := block.toArray
  Vector.ofFn fun i => wordAt bytes (4 * i.val)

/-- Cuts a list into pieces of `size`; the last one may be shorter.  At most `fuel` pieces. -/
def pieces {α : Type} (size : Nat) : Nat → List α → List (List α)
  | 0, _ => []
  | fuel + 1, xs =>
    if xs.isEmpty then [] else xs.take size :: pieces size fuel (xs.drop size)

/-- A subtree that has been hashed except for its last compression. -/
structure Node where
  chain : Chain
  words : Message
  counter : UInt64
  length : UInt32
  flags : UInt32

/-- The chain of a subtree inside a larger one. -/
def Node.inner (n : Node) : Chain :=
  compress n.chain n.words n.counter n.length n.flags

/-- The chain of the whole tree. -/
def Node.root (n : Node) : Chain :=
  compress n.chain n.words n.counter n.length (n.flags ||| rootFlag)

/-- Hashes the blocks of a chunk up to the last compression. -/
def blocks (counter : UInt64) : Chain → UInt32 → List (List UInt8) → Node
  | chain, first, [] => ⟨chain, message [], counter, 0, first ||| chunkEnd⟩
  | chain, first, [last] =>
    ⟨chain, message last, counter, UInt32.ofNat last.length, first ||| chunkEnd⟩
  | chain, first, block :: rest =>
    blocks counter (compress chain (message block) counter (UInt32.ofNat block.length) first) 0 rest

/-- The leaf of a chunk. -/
def chunk (counter : Nat) (bytes : List UInt8) : Node :=
  blocks (UInt64.ofNat counter) Chain.initial chunkStart (pieces 64 16 bytes)

/-- The parent of two subtrees. -/
def parent (left right : Chain) : Node :=
  ⟨Chain.initial, ⟨(left.words ++ right.words).toArray, rfl⟩, 0, 64, parentFlag⟩

/-- The largest power of two below `n`, for `n` above one; at most `2 ^ fuel`. -/
def leftSize : Nat → Nat → Nat
  | 0, _ => 1
  | fuel + 1, n => if 1 <<< (fuel + 1) < n then 1 <<< (fuel + 1) else leftSize fuel n

/-- The tree over leaves; its height is at most `fuel`. -/
def tree : Nat → List Node → Node
  | _, [] => chunk 0 []
  | _, [leaf] => leaf
  | 0, leaf :: _ => leaf
  | fuel + 1, leaves =>
    let n := leftSize 64 leaves.length
    parent (tree fuel (leaves.take n)).inner (tree fuel (leaves.drop n)).inner

/-- The bytes of a word, least significant first. -/
def wordBytes (w : UInt32) : List UInt8 :=
  [w.toUInt8, (w >>> 8).toUInt8, (w >>> 16).toUInt8, (w >>> 24).toUInt8]

/-- The 32-byte hash of a byte string. -/
def hash (bytes : List UInt8) : List UInt8 :=
  let chunks := pieces 1024 (bytes.length / 1024 + 1) bytes
  let leaves := chunks.mapIdx fun i c => chunk i c
  (tree 64 leaves).root.words.flatMap wordBytes

end DialectBridge.Blake3
