import BitcoinSpend.Document
import BitcoinSpend.Script.Instruction
import BitcoinSpend.Wire.Reader
import BitcoinSpend.Wire.Writer

/-!
# Transaction inputs

An input names the output that it spends, carries the unlocking script, and keeps that script in
text form beside its bytes. The text form is made when the unlocking script is assigned, unless the
input was built without it or names no output at all.
-/

namespace BitcoinSpend

open Script Wire

/-- An input. The transaction identifier is held in display order, the reverse of the wire order. -/
structure TxInput where
  txid : Bytes
  vout : Int
  unlocking : Bytes
  sequence : Int
  /-- Whether the text form of the unlocking script is wanted. -/
  disassembled : Bool
  /-- The text form of the unlocking script as of its last assignment. -/
  tokens? : Option (List Token)
deriving DecidableEq

namespace TxInput

/-- The output number of an input that names no output. -/
def nullVout : Int :=
  0xffffffff

/-- The sequence of an input unless another is given. -/
def defaultSequence : Int :=
  0xffffffff

/-- Whether an input names no output. -/
def isNull (i : TxInput) : Bool :=
  i.vout = nullVout

/-- The input with another unlocking script, and its text form along with it. -/
def withUnlocking (i : TxInput) (script : Bytes) : TxInput :=
  { i with
    unlocking := script
    tokens? := if i.disassembled && !i.isNull then some (disassemble script) else none }

/-- The input with the given fields. -/
def ofFields (txid : Bytes) (vout : Int) (unlocking : Bytes) (sequence : Int)
    (disassembled : Bool) : TxInput :=
  withUnlocking ⟨txid, vout, [], sequence, disassembled, none⟩ unlocking

/-- The wire form of what an input spends. -/
def outpoint (i : TxInput) : Except WriteError Bytes := do
  return i.txid.reverse ++ (← littleInt? false 4 i.vout)

/-- The wire form of an input. -/
def encode (i : TxInput) : Except WriteError Bytes := do
  let outpoint ← i.outpoint
  let script ← lengthPrefixed? i.unlocking
  let sequence ← littleInt? false 4 i.sequence
  return outpoint ++ script ++ sequence

/-- Reads an input. -/
def reader (disassembled : Bool) : Reader TxInput := do
  let txid ← take 32 (some "txid")
  let vout ← littleInt false 4 (some "vout")
  let unlocking ← lengthPrefixed (some "scriptsig")
  let sequence ← littleInt false 4 (some "sequence")
  return ofFields txid.reverse vout unlocking sequence disassembled

/-- The fields of an input. -/
def document (i : TxInput) : Document :=
  .object [
    ("txid", .text (Hex.encode i.txid)),
    ("vout", .number i.vout),
    ("scriptsig", .text (Hex.encode i.unlocking)),
    ("scriptsig_asm", match i.tokens? with
      | some tokens => .text (textOf tokens)
      | none => .null),
    ("sequence", .number i.sequence)]

end TxInput

end BitcoinSpend
