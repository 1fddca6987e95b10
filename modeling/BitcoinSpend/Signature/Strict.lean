import BitcoinSpend.Signature.Basic

/-!
# The strict encoding

The distinguished encoding of a signature: a sequence of exactly two integers, each length in its
shortest definite form, each integer minimal and not negative, and nothing left over. Read `decode`
first; `encode?` writes the one form that it accepts.
-/

namespace BitcoinSpend.Signature.Strict

/-- The length of an element in its shortest definite form: one byte below 128, and otherwise the
number of length bytes, offset by 128, before the length. -/
def lengthOf (n : Nat) : Bytes :=
  if n < 0x80 then [UInt8.ofNat n]
  else
    let k := Bytes.sizeOfNat n
    UInt8.ofNat (0x80 + k) :: Bytes.ofNatBE k n

/-- An element with its tag and length. -/
def element (tag : UInt8) (contents : Bytes) : Bytes :=
  tag :: (lengthOf contents.length ++ contents)

/-- The contents of an integer element: the fewest bytes whose first one does not look negative. -/
def integerContents (n : Nat) : Bytes :=
  Bytes.ofNatBE (n.log2 / 8 + if n.log2 % 8 = 7 then 2 else 1) n

/-- The strict encoding of a signature, or `none` if one of its integers is negative. -/
def encode? (signature : Signature) : Option Bytes :=
  if signature.r < 0 ∨ signature.s < 0 then none
  else some (element 0x30
    (element 0x02 (integerContents signature.r.toNat)
      ++ element 0x02 (integerContents signature.s.toNat)))

/-- Reads a length in its shortest definite form, with at most four length bytes. -/
def length? : Bytes → Option (Nat × Bytes)
  | [] => none
  | b :: rest =>
    if b < 0x80 then some (b.toNat, rest)
    else
      let k := b.toNat - 0x80
      let digits := rest.take k
      let n := Bytes.toNatBE digits
      if 1 ≤ k ∧ k ≤ 4 ∧ digits.length = k ∧ 0x80 ≤ n ∧ Bytes.capacity (k - 1) ≤ n then
        some (n, rest.drop k)
      else none

/-- Reads an element with a given tag and returns its contents and what follows it. -/
def element? (tag : UInt8) : Bytes → Option (Bytes × Bytes)
  | [] => none
  | b :: rest =>
    if b = tag then do
      let (n, body) ← length? rest
      if n ≤ body.length then some (body.take n, body.drop n) else none
    else none

/-- The number that the contents of an integer element write, if they are minimal and not
negative. -/
def integer? : Bytes → Option Nat
  | [] => none
  | [b] => if b < 0x80 then some b.toNat else none
  | b :: c :: rest =>
    if b < 0x80 ∧ (b ≠ 0 ∨ 0x80 ≤ c) then some (Bytes.toNatBE (b :: c :: rest)) else none

/-- The two numbers of a strict encoding, whatever their size. -/
def numbers? (bs : Bytes) : Option (Nat × Nat) := do
  let (contents, after) ← element? 0x30 bs
  let (r, more) ← element? 0x02 contents
  let (s, beyond) ← element? 0x02 more
  let r ← integer? r
  let s ← integer? s
  if after.isEmpty && beyond.isEmpty then some (r, s) else none

/-- The signature of a strict encoding; its integers have to be positive. -/
def decode (bs : Bytes) : Except SignatureError Signature :=
  match numbers? bs with
  | none => .error .notStrict
  | some (r, s) => if r = 0 ∨ s = 0 then .error .nonPositive else .ok ⟨r, s⟩

end BitcoinSpend.Signature.Strict
