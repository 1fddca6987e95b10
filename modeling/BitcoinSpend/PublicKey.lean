import BitcoinSpend.Curve.Basic
import BitcoinSpend.Document
import BitcoinSpend.Hash.Composite

/-!
# Public keys

A public key is a point of `secp256k1`. It is derived from a private key or decoded from one of
three forms: compressed, uncompressed, and hybrid, which is uncompressed with the parity of `y` in
its first byte. Read `decode` first.
-/

namespace BitcoinSpend

/-- A public key. -/
structure PublicKey where
  point : Point
deriving DecidableEq, Repr

namespace PublicKey

/-- Why there is no public key. -/
inductive KeyError where
  | privateKeyRange
  | unrecognized
  | uncompressedLength
  | uncompressedMarker
  | offCurve
  | hybridParity
  | compressedLength
  | compressedMarker
  | xRange
  | xNotOnCurve
  | curve (e : Curve.CurveError)
deriving DecidableEq, Repr

/-- The text of a key error. -/
def KeyError.message? : KeyError → Option String
  | .privateKeyRange => some "Private key out of range"
  | .unrecognized => some "Unrecognized pubkey type"
  | .uncompressedLength => some "Uncompressed pubkey not of correct length."
  | .uncompressedMarker => some "Uncompressed pubkey has incorrect prefix"
  | .offCurve => some "Decoded public key point not on SECP256K1 curve"
  | .hybridParity => some "Hybrid pubkey prefix does not match y parity"
  | .compressedLength => some "Compressed pubkey must be 33 bytes"
  | .compressedMarker => some "Invalid prefix for compressed pubkey"
  | .xRange => some "x out of range"
  | .xNotOnCurve => some "Given x coordinate not on curve"
  | .curve e => e.message?

/-- Takes an outcome on the curve as an outcome on keys. -/
def onCurve {α : Type} (outcome : Except Curve.CurveError α) : Except KeyError α :=
  outcome.mapError .curve

/-- The public key of a private key. -/
def ofPrivate (key : Int) : Except KeyError PublicKey := do
  unless 1 ≤ key ∧ key < secp256k1.order do throw .privateKeyRange
  match ← onCurve (secp256k1.multiplyGenerator key) with
  | some P => return ⟨P⟩
  | none => throw .privateKeyRange

/-- The public key of a private key written as a big-endian number. -/
def ofPrivateBytes (key : Bytes) : Except KeyError PublicKey :=
  ofPrivate (Bytes.toNatBE key)

/-- The markers of the uncompressed form and of the hybrid form with even and odd `y`. -/
def isUncompressedMarker (b : UInt8) : Bool :=
  b = 0x04 || b = 0x06 || b = 0x07

/-- The markers of the compressed form with even and odd `y`. -/
def isCompressedMarker (b : UInt8) : Bool :=
  b = 0x02 || b = 0x03

/-- Decodes an uncompressed or hybrid key of sixty-five bytes. -/
def ofUncompressed (bs : Bytes) : Except KeyError PublicKey := do
  if bs.length ≠ 65 then throw .uncompressedLength
  let marker := bs.headD 0
  unless isUncompressedMarker marker do throw .uncompressedMarker
  let x := Bytes.toNatBE ((bs.drop 1).take 32)
  let y := Bytes.toNatBE (bs.drop 33)
  unless x < secp256k1.p ∧ y < secp256k1.p do throw .offCurve
  unless ← onCurve (secp256k1.contains (some ⟨x, y⟩)) do throw .offCurve
  if marker ≠ 0x04 ∧ y % 2 ≠ marker.toNat % 2 then throw .hybridParity
  return ⟨⟨x, y⟩⟩

/-- Decodes a compressed key of thirty-three bytes. -/
def ofCompressed (bs : Bytes) : Except KeyError PublicKey := do
  if bs.length ≠ 33 then throw .compressedLength
  let marker := bs.headD 0
  unless isCompressedMarker marker do throw .compressedMarker
  let x := Bytes.toNatBE (bs.drop 1)
  unless 0 < x ∧ x < secp256k1.p do throw .xRange
  unless ← onCurve (secp256k1.containsX x) do throw .xNotOnCurve
  let y ← onCurve (secp256k1.solveY x)
  return ⟨⟨x, if y % 2 = marker.toNat % 2 then y else secp256k1.p - y⟩⟩

/-- Decodes a key by its length and its first byte. -/
def decode (bs : Bytes) : Except KeyError PublicKey :=
  let marker := bs.headD 0
  if bs.length = 65 && isUncompressedMarker marker then ofUncompressed bs
  else if bs.length = 33 && isCompressedMarker marker then ofCompressed bs
  else .error .unrecognized

/-- A coordinate in thirty-two bytes. -/
def coordinate (v : Int) : Bytes :=
  Bytes.ofNatBE 32 v.toNat

/-- The compressed form: a marker with the parity of `y`, and `x`. -/
def compressed (key : PublicKey) : Bytes :=
  (if key.point.y % 2 = 0 then 0x02 else 0x03) :: coordinate key.point.x

/-- The uncompressed form: a marker and both coordinates. -/
def uncompressed (key : PublicKey) : Bytes :=
  0x04 :: (coordinate key.point.x ++ coordinate key.point.y)

/-- The digest by which locking scripts name the compressed key. -/
def hash (key : PublicKey) : Bytes :=
  Hash.hash160 key.compressed

/-- The digest by which locking scripts name the uncompressed key. -/
def hashUncompressed (key : PublicKey) : Bytes :=
  Hash.hash160 key.uncompressed

/-- The coordinates and the compressed form. -/
def document (key : PublicKey) : Document :=
  .object [
    ("x", .text (Hex.encode (coordinate key.point.x))),
    ("y", .text (Hex.encode (coordinate key.point.y))),
    ("compressed", .text (Hex.encode key.compressed))]

end PublicKey

end BitcoinSpend
