import BitcoinSpend.Hash.Word

/-!
# SHA-1

The hash function with a state of five words and eighty rounds a block.
-/

namespace BitcoinSpend.Hash

namespace Sha1

/-- The chaining state. -/
structure State where
  a : UInt32
  b : UInt32
  c : UInt32
  d : UInt32
  e : UInt32

/-- The state before the first block. -/
def initial : State :=
  ⟨0x67452301, 0xefcdab89, 0x98badcfe, 0x10325476, 0xc3d2e1f0⟩

/-- Appends the next entry of the message schedule. -/
def extend (w : Array UInt32) : Array UInt32 :=
  let t := w.size
  w.push (rotateLeft (w.getD (t - 3) 0 ^^^ w.getD (t - 8) 0 ^^^ w.getD (t - 14) 0
    ^^^ w.getD (t - 16) 0) 1)

/-- The eighty entries of the message schedule of a block. -/
def schedule (block : Array UInt32) : Array UInt32 :=
  (List.range 64).foldl (fun w _ ↦ extend w) block

/-- The mixing function and the constant of a round. -/
def mix (i : Nat) (b c d : UInt32) : UInt32 × UInt32 :=
  if i < 20 then ((b &&& c) ||| (~~~b &&& d), 0x5a827999)
  else if i < 40 then (b ^^^ c ^^^ d, 0x6ed9eba1)
  else if i < 60 then ((b &&& c) ||| (b &&& d) ||| (c &&& d), 0x8f1bbcdc)
  else (b ^^^ c ^^^ d, 0xca62c1d6)

/-- One round with a schedule entry. -/
def round (i : Nat) (s : State) (w : UInt32) : State :=
  let (f, k) := mix i s.b s.c s.d
  ⟨rotateLeft s.a 5 + f + s.e + k + w, s.a, rotateLeft s.b 30, s.c, s.d⟩

/-- The state after one more block. -/
def compress (s : State) (block : Array UInt32) : State :=
  let w := schedule block
  let t := (List.range 80).foldl (fun t i ↦ round i t (w.getD i 0)) s
  ⟨s.a + t.a, s.b + t.b, s.c + t.c, s.d + t.d, s.e + t.e⟩

/-- The twenty bytes of a state. -/
def State.bytes (s : State) : Bytes :=
  [s.a, s.b, s.c, s.d, s.e].flatMap bytesBE

end Sha1

/-- The SHA-1 digest of a message. -/
def sha1 (message : Bytes) : Bytes :=
  (foldBlocks wordBE Sha1.compress Sha1.initial (pad (Bytes.ofNatBE 8) message)).bytes

/-- A SHA-1 digest has twenty bytes. -/
theorem length_sha1 (message : Bytes) : (sha1 message).length = 20 := by
  simp [sha1, Sha1.State.bytes, bytesBE]

end BitcoinSpend.Hash
