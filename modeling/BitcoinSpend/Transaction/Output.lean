import BitcoinSpend.Document
import BitcoinSpend.Script.Instruction
import BitcoinSpend.Wire.Reader
import BitcoinSpend.Wire.Writer

/-!
# Transaction outputs and witnesses

An output pays an amount to a locking script. A witness is a list of byte strings, one witness to
each input.
-/

namespace BitcoinSpend

open Script Wire

/-- An output. -/
structure TxOutput where
  amount : Int
  locking : Bytes
deriving DecidableEq, Repr

namespace TxOutput

/-- The locking script in text form. -/
def tokens (o : TxOutput) : List Token :=
  disassemble o.locking

/-- The output that signatures of a single output put in the place of earlier ones. -/
def blank : TxOutput :=
  ⟨-1, []⟩

/-- The wire form of an output. -/
def encode (o : TxOutput) : Except WriteError Bytes := do
  let amount ← littleInt? true 8 o.amount
  let script ← lengthPrefixed? o.locking
  return amount ++ script

/-- Reads an output. -/
def reader : Reader TxOutput := do
  let amount ← littleInt true 8 (some "amount")
  let locking ← lengthPrefixed (some "scriptpubkey")
  return ⟨amount, locking⟩

/-- The fields of an output. -/
def document (o : TxOutput) : Document :=
  .object [
    ("amount", .number o.amount),
    ("scriptpubkey", .text (Hex.encode o.locking)),
    ("scriptpubkey_asm", .text (textOf o.tokens))]

end TxOutput

/-- The items of a witness, in the order in which they are written. -/
abbrev Witness := List Bytes

namespace Witness

/-- The wire form of a witness. -/
def encode (w : Witness) : Except WriteError Bytes := do
  let count ← compactSize? w.length
  let items ← w.mapM lengthPrefixed?
  return count ++ items.flatten

/-- Reads a witness. -/
def reader : Reader Witness := do
  let count ← compactSize
  many (lengthPrefixed (some "witness item")) count

/-- The items of a witness and their number. -/
def document (w : Witness) : Document :=
  .object [
    ("stack_items", .number w.length),
    ("items", .list (w.map fun item ↦ .text (Hex.encode item)))]

end Witness

end BitcoinSpend
