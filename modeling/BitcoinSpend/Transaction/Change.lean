import BitcoinSpend.Transaction.Basic

/-!
# Changes of transactions

The ways in which a transaction is changed in place: a field takes another value, or an input, an
output or a witness is added at the end of its list. A change does no more than it says. So adding an
input adds no witness, and moving an input to another outpoint does not renew the text form of its
unlocking script. Read `Transaction.Change` first.
-/

namespace BitcoinSpend

/-- A change of a field of an input. -/
inductive TxInput.Change where
  | txid (id : Bytes)
  | vout (n : Int)
  | unlocking (script : Bytes)
  | sequence (n : Int)
deriving DecidableEq, Repr

/-- The input after a change. -/
def TxInput.Change.apply (i : TxInput) : TxInput.Change → TxInput
  | txid id => { i with txid := id }
  | vout n => { i with vout := n }
  | unlocking script => i.withUnlocking script
  | sequence n => { i with sequence := n }

/-- A change of a field of an output. -/
inductive TxOutput.Change where
  | amount (v : Int)
  | locking (script : Bytes)
deriving DecidableEq, Repr

/-- The output after a change. -/
def TxOutput.Change.apply (o : TxOutput) : TxOutput.Change → TxOutput
  | amount v => { o with amount := v }
  | locking script => { o with locking := script }

/-- A change of a transaction. Inputs, outputs and witnesses are named by signed positions. -/
inductive Transaction.Change where
  | version (v : Int)
  | lockTime (t : Int)
  | segwit (b : Bool)
  | input (index : Int) (change : TxInput.Change)
  | output (index : Int) (change : TxOutput.Change)
  | witness (index : Int) (w : Witness)
  | addInput (i : TxInput)
  | addOutput (o : TxOutput)
  | addWitness (w : Witness)
deriving DecidableEq

/-- The transaction after a change, or `none` if a position names nothing. -/
def Transaction.Change.apply? (tx : Transaction) : Transaction.Change → Option Transaction
  | version v => some { tx with version := v }
  | lockTime t => some { tx with lockTime := t }
  | segwit b => some { tx with segwit := b }
  | input index change => do
    return { tx with inputs := ← modifyAt? tx.inputs index change.apply }
  | output index change => do
    return { tx with outputs := ← modifyAt? tx.outputs index change.apply }
  | witness index w => do
    return { tx with witness := ← modifyAt? tx.witness index fun _ ↦ w }
  | addInput i => some { tx with inputs := tx.inputs ++ [i] }
  | addOutput o => some { tx with outputs := tx.outputs ++ [o] }
  | addWitness w => some { tx with witness := tx.witness ++ [w] }

end BitcoinSpend
