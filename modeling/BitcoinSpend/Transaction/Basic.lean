import BitcoinSpend.Hash.Composite
import BitcoinSpend.Position
import BitcoinSpend.Transaction.Input
import BitcoinSpend.Transaction.Output

/-!
# Transactions

A transaction lists inputs, outputs and witnesses between a version and a lock time. It is written
in the older layout, or, as a segwit transaction, with a marker and a flag behind the version and
the witnesses before the lock time. Read `encode` and `reader` first. An input count of zero looks
like the marker, and is told apart by the byte behind it.
-/

namespace BitcoinSpend

open Script Wire

/-- A transaction. Fields are not limited to what can be written; the writers check that. -/
structure Transaction where
  inputs : List TxInput
  outputs : List TxOutput
  witness : List Witness
  lockTime : Int
  version : Int
  segwit : Bool
deriving DecidableEq

namespace Transaction

/-- The transaction with the given fields. Missing witnesses are empty, and unless it is said
whether this is a segwit transaction, it is one if some witness is not empty. -/
def ofFields (inputs : List TxInput) (outputs : List TxOutput) (witness : List Witness)
    (lockTime version : Int) (segwit? : Option Bool) : Transaction :=
  let padded := witness ++ List.replicate (inputs.length - witness.length) []
  ⟨inputs, outputs, padded, lockTime, version, segwit?.getD (padded.any fun w ↦ !w.isEmpty)⟩

/-- The wire form of a transaction. Marker, flag and witnesses are written if they are asked for
and this is a segwit transaction. -/
def encode (tx : Transaction) (withWitness : Bool) : Except WriteError Bytes := do
  let segwit := tx.segwit && withWitness
  let version ← littleInt? true 4 tx.version
  let inputCount ← compactSize? tx.inputs.length
  let inputs ← tx.inputs.mapM TxInput.encode
  let outputCount ← compactSize? tx.outputs.length
  let outputs ← tx.outputs.mapM TxOutput.encode
  let witness ← if segwit then tx.witness.mapM Witness.encode else pure []
  let lockTime ← littleInt? false 4 tx.lockTime
  return version ++ (if segwit then [0x00, 0x01] else []) ++ inputCount ++ inputs.flatten
    ++ outputCount ++ outputs.flatten ++ witness.flatten ++ lockTime

/-- Reads marker and flag and answers whether they are there. Without a marker, and where two zeros
count no inputs and no outputs, nothing is consumed. -/
def segwitMarker : Reader Bool := fun bs ↦
  match bs with
  | [] => .error (.insufficient (some "marker")) []
  | marker :: rest =>
    if marker = 0x00 then
      match rest with
      | [] => .error (.insufficient (some "flag")) []
      | flag :: rest =>
        if flag = 0x01 then .ok true rest
        else if flag = 0x00 then .ok false bs
        else .error (.unsupportedFlag flag) rest
    else .ok false bs

/-- Reads a transaction that ends with the input. -/
def reader (disassembled : Bool) : Reader Transaction := do
  let version ← littleInt true 4 (some "version")
  let segwit ← segwitMarker
  let inputCount ← compactSize
  let inputs ← many (TxInput.reader disassembled) inputCount
  let outputCount ← compactSize
  let outputs ← many TxOutput.reader outputCount
  let witness ← if segwit then many Witness.reader inputCount else pure []
  let lockTime ← littleInt false 4 (some "locktime")
  atEnd
  return ofFields inputs outputs witness lockTime version (some segwit)

/-- The transaction that a byte string writes. -/
def decode (disassembled : Bool) (bs : Bytes) : Except ReadError Transaction :=
  (reader disassembled).decode bs

/-- Why a transaction has no copy by way of its bytes. -/
inductive CopyError where
  | write (e : WriteError)
  | read (e : ReadError)
deriving DecidableEq, Repr

/-- The copy of a transaction by way of its bytes. -/
def copy (tx : Transaction) (disassembled : Bool) : Except CopyError Transaction := do
  let bs ← (tx.encode true).mapError .write
  (decode disassembled bs).mapError .read

/-- Whether this is a coinbase: one input that spends nothing. -/
def isCoinbase (tx : Transaction) : Bool :=
  match tx.inputs with
  | [i] => i.isNull && i.txid = List.replicate 32 0
  | _ => false

/-- The identifier of a transaction in display order: the digest of its form without witnesses. -/
def txid (tx : Transaction) : Except WriteError Bytes := do
  return (Hash.hash256 (← tx.encode false)).reverse

/-- The digest of the full form of a transaction in display order. -/
def wtxid (tx : Transaction) : Except WriteError Bytes := do
  return (Hash.hash256 (← tx.encode true)).reverse

/-- The fields of a transaction and its identifiers. -/
def document (tx : Transaction) : Except WriteError Document := do
  let txid ← tx.txid
  let wtxid ← tx.wtxid
  let witness :=
    if tx.segwit then [("witness", Document.list (tx.witness.map Witness.document))] else []
  return .object ([
    ("txid", .text (Hex.encode txid)),
    ("wtxid", .text (Hex.encode wtxid)),
    ("version", .number tx.version),
    ("segwit", .truth tx.segwit),
    ("inputs", .list (tx.inputs.map TxInput.document)),
    ("outputs", .list (tx.outputs.map TxOutput.document)),
    ("locktime", .number tx.lockTime)] ++ witness)

end Transaction

end BitcoinSpend
