import BitcoinSpend.Wire.Reader
import BitcoinSpend.Wire.Writer

/-!
# Hash types

The number behind a signature says which parts of the transaction it commits to. Any integer is a
hash type: its low five bits select the outputs, and one bit says whether other inputs may be added.
This module also holds the errors of computing a signature hash and the digest that stands in when
there is nothing to commit to.
-/

namespace BitcoinSpend.Sighash

/-- The part of a hash type that selects the outputs. -/
def base (hashType : Int) : Int :=
  hashType % 32

/-- The base type that commits to no outputs. -/
def baseNone : Int :=
  2

/-- The base type that commits to the output beside the input. -/
def baseSingle : Int :=
  3

/-- Whether a hash type commits to one input alone. -/
def anyoneCanPay (hashType : Int) : Bool :=
  hashType / 128 % 2 = 1

/-- Whether a hash type leaves the sequences of other inputs open. -/
def freesSequences (hashType : Int) : Bool :=
  base hashType = baseNone || base hashType = baseSingle

/-- The width of a hash type in a preimage. -/
def typeWidth : Nat :=
  4

/-- The hash types with a name. -/
inductive Named where
  | all
  | none
  | single
  | allAnyoneCanPay
  | noneAnyoneCanPay
  | singleAnyoneCanPay
deriving DecidableEq, Repr

namespace Named

/-- The number of a named hash type. -/
def number : Named → Nat
  | all => 0x01
  | none => 0x02
  | single => 0x03
  | allAnyoneCanPay => 0x81
  | noneAnyoneCanPay => 0x82
  | singleAnyoneCanPay => 0x83

/-- The name of a named hash type. -/
def name : Named → String
  | all => "ALL"
  | none => "NONE"
  | single => "SINGLE"
  | allAnyoneCanPay => "ALL_ANYONECANPAY"
  | noneAnyoneCanPay => "NONE_ANYONECANPAY"
  | singleAnyoneCanPay => "SINGLE_ANYONECANPAY"

/-- The named hash type with a number. -/
def ofNumber? (n : Int) : Option Named :=
  [all, none, single, allAnyoneCanPay, noneAnyoneCanPay, singleAnyoneCanPay].find? fun h ↦
    h.number = n

/-- The byte that follows a signature of this type. -/
def byte (h : Named) : Bytes :=
  Bytes.ofNatLE 1 h.number

/-- The bytes that end a preimage of this type. -/
def preimageBytes (h : Named) : Bytes :=
  Bytes.ofNatLE typeWidth h.number

end Named

/-- The digest in place of a message when the matching output is missing: the number one. -/
def one : Bytes :=
  0x01 :: List.replicate 31 0

/-- The two ways of hashing a transaction for a signature. -/
inductive Scheme where
  | legacy
  | segwit
deriving DecidableEq, Repr

/-- The name of a scheme. -/
def Scheme.name : Scheme → String
  | .legacy => "legacy"
  | .segwit => "segwit"

/-- Why there is no signature hash. -/
inductive SighashError where
  | inputOutOfRange (index : Int) (scheme : Scheme)
  | noSuchIndex
  | write (e : Wire.WriteError)
  | read (e : Wire.ReadError)
  | unwritable
deriving DecidableEq, Repr

/-- The text of an error of a signature hash. An index that is past the end of a copy and an integer
without a text have none. -/
def SighashError.message? : SighashError → Option String
  | .inputOutOfRange index scheme =>
    some s!"Input index {index} out of range for {scheme.name} signature hash"
  | .noSuchIndex => none
  | .write e => e.message?
  | .read e => e.message?
  | .unwritable => none

/-- The error for an index of no input. Its message holds the index. -/
def SighashError.noInput (index : Int) (scheme : Scheme) : SighashError :=
  Text.errorAbout [index] (.inputOutOfRange index scheme) .unwritable

end BitcoinSpend.Sighash
