/-
  This file defines the BLAKE3 digest of a sequence of bytes.

  The bytes are cut into chunks, and the chunks into blocks.
  The blocks of a chunk are compressed one after the other,
  and the chunks are the leaves of a binary tree, in which
  the left of two subtrees is always a full one. The digest
  is the compression of the tree's root.

  Key definitions include:
    * `Digest`, `Digest.hex`
    * `Digest.compress`
    * `Digest.Node`
    * `Digest.treeRoot`
    * `Digest.ofBytes`
-/

namespace ThreeAddress

/- The 256 bits of a digest, as eight words. -/
structure Digest where
  words : Vector UInt32 8
deriving DecidableEq

namespace Digest

------------------------------------------------------------
-- Compression
------------------------------------------------------------

/- The chaining value that every chunk starts from. -/
def start : Vector UInt32 8 :=
  #v[ 0x6A09E667, 0xBB67AE85, 0x3C6EF372, 0xA54FF53A
    , 0x510E527F, 0x9B05688C, 0x1F83D9AB, 0x5BE0CD19 ]

/- The order in which a round takes the words of the last. -/
def schedule : Vector (Fin 16) 16 :=
  #v[2, 6, 3, 10, 7, 0, 4, 13, 1, 11, 12, 5, 9, 14, 15, 8]

/- Rotate a word to the right. -/
def rotate (x : UInt32) (n : UInt32) : UInt32 :=
  (x >>> n) ||| (x <<< (32 - n))

/- Mix two words of the block into four words of the state. -/
def mix
    (v : Vector UInt32 16)
    (a b c d : Fin 16)
    (x y : UInt32) : Vector UInt32 16 :=
  let va := v[a] + v[b] + x
  let vd := rotate (v[d] ^^^ va) 16
  let vc := v[c] + vd
  let vb := rotate (v[b] ^^^ vc) 12
  let va := va + vb + y
  let vd := rotate (vd ^^^ va) 8
  let vc := vc + vd
  let vb := rotate (vb ^^^ vc) 7
  (((v.set a va).set b vb).set c vc).set d vd

/- One round: the columns of the state, then its diagonals. -/
def round (v m : Vector UInt32 16) : Vector UInt32 16 :=
  let v := mix v 0 4 8 12 m[0] m[1]
  let v := mix v 1 5 9 13 m[2] m[3]
  let v := mix v 2 6 10 14 m[4] m[5]
  let v := mix v 3 7 11 15 m[6] m[7]
  let v := mix v 0 5 10 15 m[8] m[9]
  let v := mix v 1 6 11 12 m[10] m[11]
  let v := mix v 2 7 8 13 m[12] m[13]
  mix v 3 4 9 14 m[14] m[15]

/- The words of a block in the order of the next round. -/
def permute (m : Vector UInt32 16) : Vector UInt32 16 :=
  schedule.map fun i => m[i]

/- A number of rounds. -/
def rounds : Nat → Vector UInt32 16 → Vector UInt32 16 → Vector UInt32 16
| 0, v, _ => v
| n + 1, v, m => rounds n (round v m) (permute m)

/-
  Compress a block into a chaining value: seven rounds on the
  chaining value, the start value and the block's tags, and
  then the two halves of the state joined.
-/
def compress
    (chain : Vector UInt32 8)
    (block : Vector UInt32 16)
    (counter : UInt64)
    (length flags : UInt32) : Vector UInt32 8 :=
  let tags : Vector UInt32 8 :=
    #v[ start[0], start[1], start[2], start[3]
      , counter.toUInt32, (counter >>> 32).toUInt32
      , length, flags ]
  let v := rounds 7 (chain ++ tags) block
  Vector.ofFn fun i : Fin 8 => v[i.val] ^^^ v[i.val + 8]

------------------------------------------------------------
-- Nodes
------------------------------------------------------------

/- The first block of a chunk. -/
def chunkStart : UInt32 := 1

/- The last block of a chunk. -/
def chunkEnd : UInt32 := 2

/- The block of an inner node of the tree. -/
def parent : UInt32 := 4

/- The block whose compression is the digest. -/
def root : UInt32 := 8

/-
  A compression that is still to be done, since the root of
  the tree is compressed with a flag of its own.
-/
structure Node where
  chain : Vector UInt32 8
  block : Vector UInt32 16
  counter : UInt64
  length : UInt32
  flags : UInt32

namespace Node

/- The chaining value of a node below the root. -/
def value (n : Node) : Vector UInt32 8 :=
  compress n.chain n.block n.counter n.length n.flags

/- The digest of the root. -/
def digest (n : Node) : Digest :=
  ⟨compress n.chain n.block 0 n.length (n.flags ||| root)⟩

/- The node above two nodes. -/
def join (l r : Node) : Node :=
  { chain := start
    block := l.value ++ r.value
    counter := 0
    length := 64
    flags := parent }

end Node

/- A word of four bytes, lowest first. -/
def word (bytes : Array UInt8) (i : Nat) : UInt32 :=
  let byte := fun k => (bytes.getD (4 * i + k) 0).toUInt32
  byte 0 ||| (byte 1 <<< 8) ||| (byte 2 <<< 16) ||| (byte 3 <<< 24)

/- The words of a block, filled up with zeros. -/
def blockWords (bytes : List UInt8) : Vector UInt32 16 :=
  let bytes := bytes.toArray
  Vector.ofFn fun i => word bytes i.val

/- The node of a chunk's blocks from one of them on. -/
def chunkNode
    (counter : UInt64)
    (chain : Vector UInt32 8)
    (flags : UInt32)
    (bytes : List UInt8) : Node :=
  let block := bytes.take 64
  let node : Node :=
    { chain
      block := blockWords block
      counter
      length := UInt32.ofNat block.length
      flags }
  if bytes.length ≤ 64 then
    { node with flags := flags ||| chunkEnd }
  else
    chunkNode counter node.value 0 (bytes.drop 64)
termination_by bytes.length
decreasing_by
  rw [List.length_drop]
  omega

/- The nodes of the chunks, counted from one of them on. -/
def chunkNodes (counter : UInt64) (bytes : List UInt8) : List Node :=
  if bytes.isEmpty then
    []
  else
    chunkNode counter start chunkStart (bytes.take 1024) ::
      chunkNodes (counter + 1) (bytes.drop 1024)
termination_by bytes.length
decreasing_by
  rename_i h
  have : 0 < bytes.length := by
    cases bytes with
    | nil => simp at h
    | cons _ _ => simp
  rw [List.length_drop]
  omega

------------------------------------------------------------
-- The Tree
------------------------------------------------------------

/- Join neighbours; a last node without one stays. -/
def joinPairs : List Node → List Node
| l :: r :: rest => l.join r :: joinPairs rest
| rest => rest

/- Joining makes no more nodes. -/
theorem length_joinPairs_le
    (nodes : List Node) :
    (joinPairs nodes).length ≤ nodes.length := by
  fun_induction joinPairs nodes with
  | case1 l r rest ih =>
      simp only [List.length_cons]
      omega
  | case2 rest => exact Nat.le_refl _

/- Join neighbours until one node is left. -/
def treeRoot (first : Node) (rest : List Node) : Node :=
  match rest with
  | [] => first
  | second :: rest =>
      have := length_joinPairs_le rest
      treeRoot (first.join second) (joinPairs rest)
termination_by rest.length
decreasing_by
  simp only [List.length_cons]
  omega

/- The digest of some bytes. -/
def ofBytes (bytes : List UInt8) : Digest :=
  let first := chunkNode 0 start chunkStart (bytes.take 1024)
  let rest := chunkNodes 1 (bytes.drop 1024)
  (treeRoot first rest).digest

/- The digest of a text. -/
def ofString (s : String) : Digest :=
  ofBytes s.toUTF8.toList

------------------------------------------------------------
-- Text
------------------------------------------------------------

/- The two hexadecimal digits of a byte. -/
def byteHex (b : UInt32) : List Char :=
  let n := b.toNat % 256
  [Nat.digitChar (n / 16), Nat.digitChar (n % 16)]

/- The hexadecimal digits of a word, lowest byte first. -/
def wordHex (w : UInt32) : List Char :=
  byteHex w ++ byteHex (w >>> 8) ++ byteHex (w >>> 16) ++
    byteHex (w >>> 24)

/- The hexadecimal digits of a digest. -/
def hex (d : Digest) : List Char :=
  d.words.toList.flatMap wordHex

end Digest

end ThreeAddress
