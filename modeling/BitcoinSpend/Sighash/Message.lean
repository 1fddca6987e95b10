import BitcoinSpend.Sighash.HashType
import BitcoinSpend.Transaction.Basic

/-!
# Signature messages

What a signature of an input signs: the digest of a `legacyPreimage` or a `segwitPreimage`, which
are byte strings made of the parts of the transaction that the hash type selects. The older preimage
is the wire form of a changed copy of the transaction; the newer one lists digests of the parts.
-/

namespace BitcoinSpend.Sighash

open Wire

/-- Takes an outcome of writing as an outcome of hashing. -/
def written {α : Type} (outcome : Except WriteError α) : Except SighashError α :=
  outcome.mapError .write

/-- The index of the input that is signed, if there is one. -/
def inputIndex (tx : Transaction) (index : Int) (scheme : Scheme) : Except SighashError Nat :=
  if 0 ≤ index ∧ index < tx.inputs.length then .ok index.toNat
  else .error (.noInput index scheme)

/-- The inputs that an older signature of input `i` commits to: no unlocking scripts but the signed
script at `i`, and, where the hash type frees them, zero sequences everywhere else. -/
def legacyInputs (hashType : Int) (i : Nat) (code : Bytes) (inputs : List TxInput) :
    List TxInput :=
  let kept := inputs.mapIdx fun n input ↦
    let input := input.withUnlocking (if n = i then code else [])
    if n ≠ i ∧ freesSequences hashType then { input with sequence := 0 } else input
  if anyoneCanPay hashType then (kept.drop i).take 1 else kept

/-- The outputs that an older signature of input `i` commits to: none, or the one beside the input
behind blank ones, or all of them. -/
def legacyOutputs (hashType : Int) (i : Nat) (outputs : List TxOutput) : List TxOutput :=
  if base hashType = baseNone then []
  else if base hashType = baseSingle then
    List.replicate i TxOutput.blank ++ (outputs.drop i).take 1
  else outputs

/-- The byte string that an older signature signs the digest of. There is none if the hash type asks
for an output that is missing. The copy of the transaction that is changed is made by way of its
bytes, so it has to be writable and readable. -/
def legacyPreimage (tx : Transaction) (index : Int) (code : Bytes) (hashType : Int) :
    Except SighashError (Option Bytes) := do
  let i ← inputIndex tx index .legacy
  if base hashType = baseSingle ∧ tx.outputs.length ≤ i then return none
  let copy ← (tx.copy false).mapError fun
    | .write e => .write e
    | .read e => .read e
  unless i < copy.inputs.length do throw .noSuchIndex
  if base hashType = baseSingle ∧ copy.outputs.length ≤ i then throw .noSuchIndex
  let changed := { copy with
    inputs := legacyInputs hashType i code copy.inputs
    outputs := legacyOutputs hashType i copy.outputs
    witness := []
    segwit := false }
  let body ← written (changed.encode true)
  let type ← written (littleInt? false typeWidth hashType)
  return some (body ++ type)

/-- The message of an older signature: the digest of its preimage, or the number one if there is
none. -/
def legacy (tx : Transaction) (index : Int) (code : Bytes) (hashType : Int) :
    Except SighashError Bytes := do
  match ← legacyPreimage tx index code hashType with
  | some preimage => return Hash.hash256 preimage
  | none => return one

/-- The digest in place of parts that are not committed to. -/
def zeroDigest : Bytes :=
  List.replicate 32 0

/-- The digest of all outpoints, unless only one input is committed to. -/
def outpointsDigest (tx : Transaction) (hashType : Int) : Except WriteError Bytes := do
  if anyoneCanPay hashType then return zeroDigest
  return Hash.hash256 (← tx.inputs.mapM TxInput.outpoint).flatten

/-- The digest of all sequences, unless the hash type frees them. -/
def sequencesDigest (tx : Transaction) (hashType : Int) : Except WriteError Bytes := do
  if anyoneCanPay hashType || freesSequences hashType then return zeroDigest
  return Hash.hash256 (← tx.inputs.mapM fun i ↦ littleInt? false 4 i.sequence).flatten

/-- The digest of all outputs, or of the one beside the input, or of none. -/
def outputsDigest (tx : Transaction) (i : Nat) (hashType : Int) : Except WriteError Bytes := do
  if !freesSequences hashType then
    return Hash.hash256 (← tx.outputs.mapM TxOutput.encode).flatten
  if base hashType = baseSingle then
    match tx.outputs[i]? with
    | some o => return Hash.hash256 (← o.encode)
    | none => return zeroDigest
  return zeroDigest

/-- The byte string that a segwit signature signs the digest of. -/
def segwitPreimage (tx : Transaction) (index amount : Int) (code : Bytes) (hashType : Int) :
    Except SighashError Bytes := do
  let i ← inputIndex tx index .segwit
  let outpoints ← written (outpointsDigest tx hashType)
  let sequences ← written (sequencesDigest tx hashType)
  let outputs ← written (outputsDigest tx i hashType)
  match tx.inputs[i]? with
  | none => throw .noSuchIndex
  | some input =>
    let version ← written (littleInt? true 4 tx.version)
    let outpoint ← written input.outpoint
    let script ← written (lengthPrefixed? code)
    let amount ← written (littleInt? true 8 amount)
    let sequence ← written (littleInt? false 4 input.sequence)
    let lockTime ← written (littleInt? false 4 tx.lockTime)
    let type ← written (littleInt? false typeWidth hashType)
    return version ++ outpoints ++ sequences ++ outpoint ++ script ++ amount ++ sequence
      ++ outputs ++ lockTime ++ type

/-- The message of a segwit signature: the digest of its preimage. -/
def segwit (tx : Transaction) (index amount : Int) (code : Bytes) (hashType : Int) :
    Except SighashError Bytes := do
  return Hash.hash256 (← segwitPreimage tx index amount code hashType)

end BitcoinSpend.Sighash
