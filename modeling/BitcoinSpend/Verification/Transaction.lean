import BitcoinSpend.Verification.Input

/-!
# Verifying a transaction

A transaction is valid if each of its inputs is, given the transactions that it spends from. The
first input that fails ends the verification with a notice.
-/

namespace BitcoinSpend.Verification

open Script

/-- Adds a notice to the journal. -/
def notify (text : String) : VerifyM Unit :=
  modify fun j ↦ { j with notices := text :: j.notices }

/-- The identifier of a transaction in text form. -/
def txidText (tx : Transaction) : VerifyM String :=
  match tx.txid with
  | .ok id => return Hex.encode id
  | .error e => throw (.write e)

/-- The output that an input spends. -/
def previousOutput (index : Nat) (input : TxInput) :
    Option Transaction → VerifyM TxOutput
  | none => throw (.missingPrevious index)
  | some previous =>
    if previous.outputs.length ≤ input.vout then
      throw (.noOutput input.txid input.vout index)
    else require (elementAt? previous.outputs input.vout)

/-- Verifies inputs, given with the transactions that they spend from, from an index on. -/
def verifyFrom (policy : Policy) (tx : Transaction) (index : Nat) :
    List (TxInput × Option Transaction) → VerifyM Bool
  | [] => return true
  | (input, previous?) :: rest => do
    let output ← previousOutput index input previous?
    if ← verifyInput policy tx index output then verifyFrom policy tx (index + 1) rest
    else
      let id ← txidText tx
      notify s!"Input {index} of tx {id} failed validation"
      return false

/-- Verifies all inputs of a transaction. A coinbase needs nothing to spend from. A verdict is given
only on a transaction that has an identifier. -/
def verify (policy : Policy) (tx : Transaction) (previous : List (Option Transaction)) :
    VerifyM Bool := do
  if tx.isCoinbase then
    discard <| txidText tx
    return true
  if previous.length < tx.inputs.length then
    throw (.tooFewPrevious tx.inputs.length previous.length)
  let valid ← verifyFrom policy tx 0 (tx.inputs.zip previous)
  if valid then discard <| txidText tx
  return valid

end BitcoinSpend.Verification
