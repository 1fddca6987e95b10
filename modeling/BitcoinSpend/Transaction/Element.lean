import BitcoinSpend.Transaction.Basic

/-!
# Elements

The parts of the wire format that are encoded as units. Elements of different kinds are equal when
their bytes are.
-/

namespace BitcoinSpend

open Wire

/-- A transaction or a part of one. -/
inductive Element where
  | input (i : TxInput)
  | output (o : TxOutput)
  | witness (w : Witness)
  | transaction (tx : Transaction)

namespace Element

/-- The kinds of elements. -/
inductive Kind where
  | input
  | output
  | witness
  | transaction
deriving DecidableEq, Repr

/-- The name of a kind. -/
def Kind.name : Kind → String
  | .input => "TxInput"
  | .output => "TxOutput"
  | .witness => "WitnessField"
  | .transaction => "Transaction"

/-- Reads an element of a kind. -/
def reader : Kind → Reader Element
  | .input => return .input (← TxInput.reader true)
  | .output => return .output (← TxOutput.reader)
  | .witness => return .witness (← Witness.reader)
  | .transaction => return .transaction (← Transaction.reader true)

/-- The kind of an element. -/
def kind : Element → Kind
  | input _ => .input
  | output _ => .output
  | witness _ => .witness
  | transaction _ => .transaction

/-- The wire form of an element. -/
def encode : Element → Except WriteError Bytes
  | input i => i.encode
  | output o => o.encode
  | witness w => w.encode
  | transaction tx => tx.encode true

/-- The fields of an element. -/
def document : Element → Except WriteError Document
  | input i => .ok i.document
  | output o => .ok o.document
  | witness w => .ok w.document
  | transaction tx => tx.document

/-- The text of an element: its kind around its bytes. -/
def describe (e : Element) : Except WriteError String := do
  return e.kind.name ++ "(" ++ Hex.encode (← e.encode) ++ ")"

/-- Whether two elements have the same bytes. -/
def same (e f : Element) : Except WriteError Bool := do
  let left ← e.encode
  let right ← f.encode
  return left = right

end Element

end BitcoinSpend
