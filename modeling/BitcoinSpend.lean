import BitcoinSpend.Bytes.Basic
import BitcoinSpend.Bytes.Hex
import BitcoinSpend.Curve.Basic
import BitcoinSpend.Curve.Modular
import BitcoinSpend.Document
import BitcoinSpend.Hash.Composite
import BitcoinSpend.Hash.Ripemd160
import BitcoinSpend.Hash.Sha1
import BitcoinSpend.Hash.Sha256
import BitcoinSpend.Hash.Word
import BitcoinSpend.Position
import BitcoinSpend.Proofs.Curve.Addition
import BitcoinSpend.Proofs.Curve.Closure
import BitcoinSpend.Proofs.Curve.Cyclic
import BitcoinSpend.Proofs.Curve.Group
import BitcoinSpend.Proofs.Curve.Modular
import BitcoinSpend.Proofs.Curve.Multiplication
import BitcoinSpend.Proofs.Curve.Order
import BitcoinSpend.Proofs.Curve.Ordinate
import BitcoinSpend.Proofs.Curve.Primality
import BitcoinSpend.Proofs.Curve.Residue
import BitcoinSpend.Proofs.Curve.Scalar
import BitcoinSpend.Proofs.Curve.Secp256k1
import BitcoinSpend.Proofs.PublicKey
import BitcoinSpend.Proofs.Script.Canonical
import BitcoinSpend.Proofs.Script.Committed
import BitcoinSpend.Proofs.Script.Executable
import BitcoinSpend.Proofs.Script.Machine.Arithmetic
import BitcoinSpend.Proofs.Script.Machine.Asked
import BitcoinSpend.Proofs.Script.Machine.Balanced
import BitcoinSpend.Proofs.Script.Machine.Barred
import BitcoinSpend.Proofs.Script.Machine.Boundary
import BitcoinSpend.Proofs.Script.Machine.CodeStart
import BitcoinSpend.Proofs.Script.Machine.Conditional
import BitcoinSpend.Proofs.Script.Machine.Disassembled
import BitcoinSpend.Proofs.Script.Machine.Dispatch
import BitcoinSpend.Proofs.Script.Machine.Heights
import BitcoinSpend.Proofs.Script.Machine.Inversion
import BitcoinSpend.Proofs.Script.Machine.ItemSize
import BitcoinSpend.Proofs.Script.Machine.KeyHash
import BitcoinSpend.Proofs.Script.Machine.MultiSignature
import BitcoinSpend.Proofs.Script.Machine.Place
import BitcoinSpend.Proofs.Script.Machine.Push
import BitcoinSpend.Proofs.Script.Machine.Related
import BitcoinSpend.Proofs.Script.Machine.Respelling
import BitcoinSpend.Proofs.Script.Machine.Room
import BitcoinSpend.Proofs.Script.Machine.ScriptCode
import BitcoinSpend.Proofs.Script.Machine.Separator
import BitcoinSpend.Proofs.Script.Machine.Sequential
import BitcoinSpend.Proofs.Script.Machine.Shuffle
import BitcoinSpend.Proofs.Script.Machine.Standard
import BitcoinSpend.Proofs.Script.Machine.Step
import BitcoinSpend.Proofs.Script.Machine.Total
import BitcoinSpend.Proofs.Script.Machine.Unspendable
import BitcoinSpend.Proofs.Script.Machine.Unwritable
import BitcoinSpend.Proofs.Script.Machine.Verify
import BitcoinSpend.Proofs.Script.Number
import BitcoinSpend.Proofs.Script.Respelled
import BitcoinSpend.Proofs.Script.Stack
import BitcoinSpend.Proofs.Script.Template
import BitcoinSpend.Proofs.Sighash.Legacy
import BitcoinSpend.Proofs.Sighash.LegacyCommitment
import BitcoinSpend.Proofs.Sighash.Segwit
import BitcoinSpend.Proofs.Sighash.SegwitCommitment
import BitcoinSpend.Proofs.Sighash.Selection
import BitcoinSpend.Proofs.Sighash.Unsigned
import BitcoinSpend.Proofs.Signature.Acceptance
import BitcoinSpend.Proofs.Signature.Agreement
import BitcoinSpend.Proofs.Signature.Ecdsa
import BitcoinSpend.Proofs.Signature.Extension
import BitcoinSpend.Proofs.Signature.Lax
import BitcoinSpend.Proofs.Signature.Overlong
import BitcoinSpend.Proofs.Signature.Signing
import BitcoinSpend.Proofs.Signature.Strict
import BitcoinSpend.Proofs.Source
import BitcoinSpend.Proofs.Text.Decimal
import BitcoinSpend.Proofs.Transaction.Built
import BitcoinSpend.Proofs.Transaction.Malformed
import BitcoinSpend.Proofs.Transaction.PrefixFree
import BitcoinSpend.Proofs.Transaction.Range
import BitcoinSpend.Proofs.Transaction.Reencoding
import BitcoinSpend.Proofs.Transaction.RoundTrip
import BitcoinSpend.Proofs.Transaction.Spelling
import BitcoinSpend.Proofs.Transaction.TextForm
import BitcoinSpend.Proofs.Verification.Attempt
import BitcoinSpend.Proofs.Verification.Isolation
import BitcoinSpend.Proofs.Verification.ItemSize
import BitcoinSpend.Proofs.Verification.Journal
import BitcoinSpend.Proofs.Verification.Redeem
import BitcoinSpend.Proofs.Verification.Run
import BitcoinSpend.Proofs.Verification.ScriptHash
import BitcoinSpend.Proofs.Verification.Signed
import BitcoinSpend.Proofs.Verification.Verdict
import BitcoinSpend.Proofs.Verification.WitnessProgram
import BitcoinSpend.Proofs.Verification.Written
import BitcoinSpend.Proofs.Wire.Failure
import BitcoinSpend.Proofs.Wire.Incremental
import BitcoinSpend.Proofs.Wire.Integer
import BitcoinSpend.Proofs.Wire.RoundTrip
import BitcoinSpend.Proofs.Wire.Spelling
import BitcoinSpend.PublicKey
import BitcoinSpend.Script.Instruction
import BitcoinSpend.Script.Machine.Basic
import BitcoinSpend.Script.Machine.Run
import BitcoinSpend.Script.Machine.Signature
import BitcoinSpend.Script.Number
import BitcoinSpend.Script.Opcode.Basic
import BitcoinSpend.Script.Opcode.Code
import BitcoinSpend.Script.Opcode.Dispatch
import BitcoinSpend.Script.Opcode.Name
import BitcoinSpend.Script.Opcode.Table
import BitcoinSpend.Script.Policy
import BitcoinSpend.Script.Stack
import BitcoinSpend.Script.StackOperation
import BitcoinSpend.Script.Template
import BitcoinSpend.Script.Token
import BitcoinSpend.Sighash.HashType
import BitcoinSpend.Sighash.Message
import BitcoinSpend.Signature.Basic
import BitcoinSpend.Signature.Ecdsa
import BitcoinSpend.Signature.Lax
import BitcoinSpend.Signature.Strict
import BitcoinSpend.Source
import BitcoinSpend.Text.CaseTable
import BitcoinSpend.Text.Decimal
import BitcoinSpend.Text.LowerCase
import BitcoinSpend.Transaction.Basic
import BitcoinSpend.Transaction.Change
import BitcoinSpend.Transaction.Element
import BitcoinSpend.Transaction.Input
import BitcoinSpend.Transaction.Output
import BitcoinSpend.Verification.Input
import BitcoinSpend.Verification.Transaction
import BitcoinSpend.Wire.Reader
import BitcoinSpend.Wire.Writer
