import BitcoinSpend.PublicKey
import BitcoinSpend.Script.Machine.Basic
import BitcoinSpend.Signature.Lax

/-!
# Signature checks

What the signature opcodes do: they rebuild the script that signatures commit to, ask for its
message, and check signatures of it under keys. Read `checkSignature` first, which decides about one
signature and one key without touching the machine, and then `matchSignatures`, which pairs several
signatures with keys.
-/

namespace BitcoinSpend.Script

/-- The outcome of checking a signature under a key, and the message that was asked for on the way,
if it came to that. -/
structure SignatureCheck where
  call? : Option Call
  outcome : Except MachineError Bool

namespace SignatureCheck

/-- The outcome for what is no signature under the key. -/
def refused : SignatureCheck :=
  ⟨none, .ok false⟩

/-- The outcome of a check that an error ended before a message was asked for. -/
def raised (e : MachineError) : SignatureCheck :=
  ⟨none, .error e⟩

/-- Takes the outcome as a step, which remembers the message. -/
def perform (check : SignatureCheck) : StepM Bool := do
  modify fun m ↦ { m with calls := check.call?.toList ++ m.calls }
  Machine.orRaise check.outcome id

end SignatureCheck

namespace Machine

/-! ### The script that is committed to -/

/-- Whether a token is a direct push of one of some signatures. The empty signature has none. -/
def pushesSignature (signatures : List Bytes) (t : Token) : Bool :=
  signatures.any fun s ↦ !s.isEmpty && t = .push s

/-- The tokens without the direct pushes of some signatures. A literal behind a push with a length
field is no direct push; `isData` says whether the first token is one. -/
def dropSignatures (signatures : List Bytes) (isData : Bool) : List Token → List Token
  | [] => []
  | t :: rest =>
    if !isData && pushesSignature signatures t then dropSignatures signatures false rest
    else t :: dropSignatures signatures t.isPushData rest

/-- The tokens that some signatures commit to: no separators, and outside segwit no direct pushes of
the signatures themselves. -/
def committedTokens (env : Environment) (signatures : List Bytes) (code : List Token) :
    List Token :=
  let tokens := code.filter (· ≠ .op (.signature .codeSeparator))
  if env.segwit then tokens else dropSignatures signatures false tokens

/-- The script that some signatures commit to. -/
def scriptCode (env : Environment) (signatures : List Bytes) : StepM Bytes := do
  orRaise (assemble (committedTokens env signatures (← get).code)) .assembly

/-! ### One signature -/

/-- Whether a signature of a message verifies under a key. -/
def verifies (signature : Signature) (message : Bytes) (key : PublicKey) :
    Except MachineError Bool := do
  let verdict ← (signature.verify secp256k1 message (some key.point)).mapError .verify
  return verdict = .accepted

/-- Whether a signature verifies for a digest or, where the policy allows it, for the digest
`Sighash.one`. -/
def verifiesDigest (policy : Policy) (signature : Signature) (digest : Bytes) (key : PublicKey) :
    Except MachineError Bool := do
  if ← verifies signature digest key then return true
  if policy.sentinelFallback then verifies signature Sighash.one key else return false

/-- Checks a signature, whose last byte is its hash type, of a script under a key. An empty
signature, and one that cannot be decoded or whose key cannot, is no signature. -/
def checkSignature (env : Environment) (signature key code : Bytes) : SignatureCheck :=
  match signature.getLast? with
  | none => .refused
  | some hashType =>
    match env.messages? with
    | none => .raised .noMessages
    | some messages =>
      match Signature.decode env.policy.laxDer signature.dropLast, PublicKey.decode key with
      | .error _, _ => .refused
      | .ok _, .error (.curve e) => .raised (.curve e)
      | .ok _, .error _ => .refused
      | .ok decoded, .ok publicKey =>
        match messages code hashType with
        | .error e => .raised (.sighash e)
        | .ok digest =>
          ⟨some ⟨code, hashType, digest⟩, verifiesDigest env.policy decoded digest publicKey⟩

/-- Pops a key and a signature and checks them. -/
def checkSig (env : Environment) : StepM Bool := do
  let (key, signature) ← onMainStack Stack.popPair
  let code ← scriptCode env [signature]
  (checkSignature env signature key code).perform

/-! ### Several signatures -/

/-- Matches signatures with keys in order. A key that does not match is passed over for good, and
matching ends as soon as there are more signatures than keys left. -/
def matchSignatures (check : Bytes → Bytes → SignatureCheck) :
    List Bytes → List Bytes → StepM Bool
  | [], _ => return true
  | _ :: _, [] => return false
  | s :: signatures, k :: keys => do
    if keys.length < signatures.length then return false
    if ← (check s k).perform then matchSignatures check signatures keys
    else matchSignatures check (s :: signatures) keys

/-- The most keys of a multiple signature check. -/
def maxKeys : Int :=
  20

/-- Pops keys and signatures, each behind their number, and one further item, and checks that every
signature matches a key, in order. -/
def checkMultiSig (env : Environment) : StepM Bool := do
  let keyCount ← onMainStack Stack.popNumber
  unless 0 ≤ keyCount ∧ keyCount ≤ maxKeys do fail (.keyCount keyCount)
  let keys ← onMainStack (Stack.popMany keyCount)
  let signatureCount ← onMainStack Stack.popNumber
  unless 0 ≤ signatureCount ∧ signatureCount ≤ keyCount do fail (.signatureCount signatureCount)
  let signatures ← onMainStack (Stack.popMany signatureCount)
  discard <| onMainStack Stack.pop
  let code ← scriptCode env signatures.reverse
  matchSignatures (fun s k ↦ checkSignature env s k code) signatures.reverse keys.reverse

/-- Fails the script unless a check has succeeded. -/
def require (ok : Bool) : StepM Unit := do
  unless ok do fail .unverified

/-- The effect of a signature opcode. A separator of the locking script, for which no token of the
unlocking script is left, makes signatures commit to what follows it. -/
def signatureOp (env : Environment) (unlockingLeft : Nat) (rest : List Token) :
    SignatureOp → StepM Unit
  | .codeSeparator => do
    if unlockingLeft = 0 then modify fun m ↦ { m with code := rest }
  | .checkSig => do onMainStack (Stack.pushBool (← checkSig env))
  | .checkSigVerify => do require (← checkSig env)
  | .checkMultiSig => do onMainStack (Stack.pushBool (← checkMultiSig env))
  | .checkMultiSigVerify => do require (← checkMultiSig env)

end Machine

end BitcoinSpend.Script
