import BitcoinSpend.Curve.Basic
import BitcoinSpend.Signature.Strict
import BitcoinSpend.Text.Decimal

/-!
# Signing and verifying

The signature scheme over a curve. Verification answers with a `Verdict`, because a public key off
the curve is refused with a notice of its own. An integer that is no scalar is written to the log,
so it needs a text. Signing takes the candidates for the secret nonce as a list and uses the first
that gives two nonzero integers. Read `verify` first, then `withNonce?`.
-/

namespace BitcoinSpend.Signature

variable (C : Curve)

/-- The number that a message stands for: as many of its leading bits as the order of the curve has,
or all of it if it is shorter. -/
def messageNumber (message : Bytes) : Nat :=
  Bytes.toNatBE message >>> (8 * message.length - C.orderBits)

/-- The outcome of a verification. -/
inductive Verdict where
  | accepted
  | rejected
  | keyOffCurve
deriving DecidableEq, Repr

/-- What is reported about a verdict beyond its truth value. -/
def Verdict.notice? : Verdict → Option String
  | .keyOffCurve => some "Public key point not on secp256k1"
  | _ => none

/-- Whether an integer is a nonzero scalar below the order of the curve. -/
def isScalar (n : Int) : Bool :=
  1 ≤ n && n < C.order

/-- Why there is no verdict. -/
inductive VerifyError where
  | unwritable
  | curve (e : Curve.CurveError)
deriving DecidableEq, Repr

/-- The text of an error of verification. An integer without a text leaves none. -/
def VerifyError.message? : VerifyError → Option String
  | .unwritable => none
  | .curve e => e.message?

/-- The answer to a signature with an integer that is no scalar, which is entered into the log. -/
def outOfBounds (n : Int) : Except VerifyError Verdict :=
  if Text.Writable n then .ok .rejected else .error .unwritable

/-- Checks two scalars as a signature of a message against a public key: the key is on the curve, and
the combination of the generator and the key that the signature names has `r` as its `x` coordinate.
-/
def verifyScalars (signature : Signature) (message : Bytes) (key : Option Point) :
    Except Curve.CurveError Verdict := do
  unless ← C.contains key do return .keyOffCurve
  let inv ← Curve.inverse signature.s C.order
  let u₁ ← Curve.remainder (messageNumber C message * inv) C.order
  let u₂ ← Curve.remainder (signature.r * inv) C.order
  let left ← C.multiplyGenerator u₁
  let right ← C.multiply u₂ key
  match ← C.add left right with
  | none => return .rejected
  | some P => return if signature.r = (← Curve.remainder P.x C.order) then .accepted else .rejected

/-- Checks a signature of a message against a public key. Both integers have to be scalars, and `r`
is looked at first. -/
def verify (signature : Signature) (message : Bytes) (key : Option Point) :
    Except VerifyError Verdict :=
  if !isScalar C signature.r then outOfBounds signature.r
  else if !isScalar C signature.s then outOfBounds signature.s
  else (verifyScalars C signature message key).mapError .curve

/-- Why no signature was made. -/
inductive SigningError where
  | keyOutOfRange
  | nonceAtInfinity
  | noNonceLeft
  | typeByteRange
  | curve (e : Curve.CurveError)
deriving DecidableEq, Repr

/-- The text of a signing error. Only a bad key has one. -/
def SigningError.message? : SigningError → Option String
  | .keyOutOfRange => some "Private key out of range"
  | .curve e => e.message?
  | _ => none

/-- The signature that a nonce gives, or `none` if one of its integers is zero. Of `s` and its
negative the smaller is taken. -/
def withNonce? (key : Int) (z : Nat) (nonce : Int) : Except SigningError (Option Signature) := do
  match ← (C.multiplyGenerator nonce).mapError SigningError.curve with
  | none => throw .nonceAtInfinity
  | some P =>
    let r := P.x % C.order
    if r = 0 then return none
    let inv ← (Curve.inverse nonce C.order).mapError SigningError.curve
    let s := inv * (z + r * key) % C.order
    if s = 0 then return none
    return some ⟨r, min s (C.order - s)⟩

/-- The signature of the first nonce that gives one. -/
def signFrom (key : Int) (z : Nat) : List Int → Except SigningError Signature
  | [] => .error .noNonceLeft
  | nonce :: rest => do
    match ← withNonce? C key z nonce with
    | some signature => return signature
    | none => signFrom key z rest

/-- Signs a message with a private key. -/
def sign (key : Int) (message : Bytes) (nonces : List Int) : Except SigningError Signature :=
  if isScalar C key then signFrom C key (messageNumber C message) nonces else .error .keyOutOfRange

/-- Signs a message and writes the signature strictly, with a hash type byte behind it. -/
def signTyped (key : Int) (message : Bytes) (nonces : List Int) (hashType : Int) :
    Except SigningError Bytes := do
  let signature ← sign C key message nonces
  if hashType < 0 ∨ 256 ≤ hashType then throw .typeByteRange
  return (Strict.encode? signature).getD [] ++ [UInt8.ofNat hashType.toNat]

end BitcoinSpend.Signature
