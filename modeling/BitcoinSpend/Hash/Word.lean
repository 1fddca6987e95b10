import BitcoinSpend.Bytes.Basic

/-!
# Words and padding

The three hash functions work on 32-bit words, in blocks of sixteen. This module holds rotation, the
padding of a message to whole blocks, and the walk over its blocks.
-/

namespace BitcoinSpend.Hash

/-- Rotates a word to the left by fewer than 32 places. -/
def rotateLeft (x : UInt32) (n : UInt32) : UInt32 :=
  (x <<< n) ||| (x >>> (32 - n))

/-- Rotates a word to the right by fewer than 32 places. -/
def rotateRight (x : UInt32) (n : UInt32) : UInt32 :=
  (x >>> n) ||| (x <<< (32 - n))

/-- The four bytes of a word, most significant first. -/
def bytesBE (w : UInt32) : Bytes :=
  [(w >>> 24).toUInt8, (w >>> 16).toUInt8, (w >>> 8).toUInt8, w.toUInt8]

/-- The four bytes of a word, least significant first. -/
def bytesLE (w : UInt32) : Bytes :=
  [w.toUInt8, (w >>> 8).toUInt8, (w >>> 16).toUInt8, (w >>> 24).toUInt8]

/-- The message followed by the byte `80`, zeros up to eight bytes short of a whole block, and the
eight bytes that write its length in bits. -/
def pad (lengthBytes : Nat → Bytes) (message : Bytes) : Bytes :=
  let n := message.length
  message ++ 0x80 :: (List.replicate ((119 - n % 64) % 64) 0 ++ lengthBytes (8 * n))

/-- The word whose four bytes start at an offset, most significant first. -/
def wordBE (data : Array UInt8) (offset : Nat) : UInt32 :=
  ((data.getD offset 0).toUInt32 <<< 24) ||| ((data.getD (offset + 1) 0).toUInt32 <<< 16)
    ||| ((data.getD (offset + 2) 0).toUInt32 <<< 8) ||| (data.getD (offset + 3) 0).toUInt32

/-- The word whose four bytes start at an offset, least significant first. -/
def wordLE (data : Array UInt8) (offset : Nat) : UInt32 :=
  (data.getD offset 0).toUInt32 ||| ((data.getD (offset + 1) 0).toUInt32 <<< 8)
    ||| ((data.getD (offset + 2) 0).toUInt32 <<< 16) ||| ((data.getD (offset + 3) 0).toUInt32 <<< 24)

/-- The sixteen words of the block with the given number. -/
def block (word : Array UInt8 → Nat → UInt32) (data : Array UInt8) (k : Nat) : Array UInt32 :=
  (Array.range 16).map fun i ↦ word data (64 * k + 4 * i)

/-- Feeds the blocks of a padded message to a compression function, one after another. -/
def foldBlocks {State : Type} (word : Array UInt8 → Nat → UInt32)
    (compress : State → Array UInt32 → State) (start : State) (padded : Bytes) : State :=
  let data := padded.toArray
  (List.range (data.size / 64)).foldl (fun s k ↦ compress s (block word data k)) start

end BitcoinSpend.Hash
