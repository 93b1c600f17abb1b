import ChunkedFile.Size

/-!
# Hash functions over blocks

MD5, SHA-1 and SHA-256 share one construction: the message is padded to whole blocks of 64 bytes
that end in its length, and the blocks are folded into a state. `BlockHash.digest` says this of a
whole message. `Running` takes the message in pieces of any lengths, keeping only the state and the
bytes of the block that is not yet full.
-/

namespace ChunkedFile

/-- The number of bytes in a block. -/
def blockSize : Nat := 64

/-- A hash function that folds blocks into a state. -/
structure BlockHash where
  /-- What is kept between blocks. -/
  State : Type
  initial : State
  /-- Folds one block of `blockSize` bytes. -/
  compress : State → ByteArray → State
  /-- How the number of bits in the message is written at its end, in eight bytes. -/
  lengthBytes : UInt64 → List UInt8
  /-- The digest that a final state stands for. -/
  output : State → List UInt8

/-- The byte at a position, zero beyond the end. -/
def byteAt (bytes : ByteArray) (i : Nat) : UInt8 := if h : i < bytes.size then bytes[i] else 0

/-- The eight bytes of a number, the lowest first. -/
def bytesLowFirst (n : UInt64) : List UInt8 :=
  (List.range 8).map fun i => (n >>> (8 * i.toUInt64)).toUInt8

/-- The four bytes of a word, the lowest first. -/
def wordBytesLowFirst (w : UInt32) : List UInt8 :=
  (List.range 4).map fun i => (w >>> (8 * i.toUInt32)).toUInt8

/-- The word at a position of a block, its lowest byte first. -/
def wordLowFirst (block : ByteArray) (i : Nat) : UInt32 :=
  (byteAt block i).toUInt32 ||| ((byteAt block (i + 1)).toUInt32 <<< 8) |||
    ((byteAt block (i + 2)).toUInt32 <<< 16) ||| ((byteAt block (i + 3)).toUInt32 <<< 24)

/-- The word at a position of a block, its highest byte first. -/
def wordHighFirst (block : ByteArray) (i : Nat) : UInt32 :=
  ((byteAt block i).toUInt32 <<< 24) ||| ((byteAt block (i + 1)).toUInt32 <<< 16) |||
    ((byteAt block (i + 2)).toUInt32 <<< 8) ||| (byteAt block (i + 3)).toUInt32

/-- The word turned left by fewer than 32 bits. -/
def rotateLeft (w n : UInt32) : UInt32 := (w <<< n) ||| (w >>> (32 - n))

namespace BlockHash

/-- What follows a message of the given length: a one bit, then zeros up to the length of the
message, which ends a block. -/
def padding (hash : BlockHash) (length : Nat) : ByteArray :=
  ⟨(0x80 :: List.replicate ((119 - length % 64) % 64) 0 ++
    hash.lengthBytes (UInt64.ofNat (8 * length))).toArray⟩

/-- Folds the blocks of a message of whole blocks. -/
def foldBlocks (hash : BlockHash) (message : ByteArray) (state : hash.State) : hash.State :=
  (List.range (message.size / blockSize)).foldl
    (fun state i => hash.compress state (message.extract (blockSize * i) (blockSize * (i + 1))))
    state

/-- The digest of a whole message. -/
def digest (hash : BlockHash) (message : ByteArray) : List UInt8 :=
  hash.output (hash.foldBlocks (message ++ hash.padding message.size) hash.initial)

/-- A digest in the making. -/
structure Running (hash : BlockHash) where
  state : hash.State
  /-- The bytes that do not yet fill a block. -/
  pending : ByteArray
  /-- The number of bytes taken in. -/
  length : Nat

namespace Running

variable {hash : BlockHash}

/-- The digest of nothing yet. -/
def start (hash : BlockHash) : Running hash := ⟨hash.initial, ByteArray.empty, 0⟩

/-- Takes in one byte. -/
def absorb (running : Running hash) (byte : UInt8) : Running hash :=
  let pending := running.pending.push byte
  if pending.size < blockSize then { running with pending, length := running.length + 1 }
  else ⟨hash.compress running.state pending, ByteArray.empty, running.length + 1⟩

/-- Takes in a piece of the message. -/
def update (running : Running hash) (piece : ByteArray) : Running hash :=
  piece.data.foldl absorb running

/-- The digest of all that was taken in. -/
def finish (running : Running hash) : List UInt8 :=
  hash.output (hash.foldBlocks (running.pending ++ hash.padding running.length) running.state)

end Running

end BlockHash

end ChunkedFile
