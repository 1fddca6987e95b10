import BitcoinSpend.Bytes.Basic

/-!
# Signatures

A signature is a pair of integers. Its written forms are the strict distinguished encoding, the lax
encoding and the plain one of sixty-four bytes; this module holds the pair and the reasons why a
byte string is none of them.
-/

namespace BitcoinSpend

/-- A signature. -/
structure Signature where
  r : Int
  s : Int
deriving DecidableEq, Repr

/-- Why a byte string is not a lax encoding. -/
inductive LaxError where
  | missingSequenceTag
  | missingSequenceLength
  | sequenceLengthPastEnd
  | missingIntegerTag
  | missingLength
  | lengthPastEnd
  | lengthTooLong
  | integerPastEnd
deriving DecidableEq, Repr

/-- The text of an error of the lax encoding. -/
def LaxError.message : LaxError → String
  | .missingSequenceTag => "Lax DER: missing sequence tag"
  | .missingSequenceLength => "Lax DER: missing sequence length"
  | .sequenceLengthPastEnd => "Lax DER: sequence length runs past end of signature"
  | .missingIntegerTag => "Lax DER: missing integer tag"
  | .missingLength => "Lax DER: missing length byte"
  | .lengthPastEnd => "Lax DER: length descriptor runs past end of signature"
  | .lengthTooLong => "Lax DER: length descriptor too long"
  | .integerPastEnd => "Lax DER: integer runs past end of signature"

/-- Why a byte string is not a signature. -/
inductive SignatureError where
  | notStrict
  | nonPositive
  | lax (reason : LaxError)
deriving DecidableEq, Repr

/-- The text of a signature error. -/
def SignatureError.message : SignatureError → String
  | .notStrict => "Signature is not strict DER"
  | .nonPositive => "DER signature contains a non-positive integer"
  | .lax reason => reason.message

end BitcoinSpend
