import BitcoinSpend.Bytes.Basic
import BitcoinSpend.Text.Decimal

/-!
# Writing the wire format

Writers return the bytes of a value, or a `WriteError` if the value has no form of the width asked
for. A CompactSize integer is always written in its shortest form.
-/

namespace BitcoinSpend.Wire

/-- Why a value could not be written. -/
inductive WriteError where
  | doesNotFit (value width : Int)
  | compactSizeRange
  | negativeWidth
  | unwritable
deriving DecidableEq, Repr

/-- The text of a write error. A negative width is a mistake of the caller and has none, and neither
has an error about an integer without a text. -/
def WriteError.message? : WriteError → Option String
  | .doesNotFit value width => some s!"Integer {value} does not fit in {width} bytes"
  | .compactSizeRange => some "Given number out of bounds for CompactSize encoding"
  | .negativeWidth | .unwritable => none

/-- The error for an integer that has no form of some width. Its message holds both numbers. -/
def WriteError.misfit (value width : Int) : WriteError :=
  Text.errorAbout [value, width] (.doesNotFit value width) .unwritable

/-- Whether an integer has an unsigned or a two's complement form of `width` bytes. Zero alone fits
into no bytes, except that two's complement also gives minus one the empty form. -/
def fits (signed : Bool) (width : Nat) (v : Int) : Bool :=
  if signed then
    if width = 0 then v = 0 || v = -1
    else -(Bytes.capacity width : Int) ≤ 2 * v && 2 * v < Bytes.capacity width
  else 0 ≤ v && v < Bytes.capacity width

/-- The little-endian form of an integer in `width` bytes. -/
def littleInt? (signed : Bool) (width : Nat) (v : Int) : Except WriteError Bytes :=
  if fits signed width v then .ok (Bytes.ofIntLE width v) else .error (.misfit v width)

/-- The little-endian form of an integer for a width that may itself be refused. No integer fits
into a width that no byte string has, and the width is looked at before the integer is. -/
def littleIntOfWidth (signed : Bool) (width v : Int) : Except WriteError Bytes :=
  if !Bytes.addressable width || Bytes.maxLength < width then .error (.misfit v width)
  else if width < 0 then .error .negativeWidth
  else littleInt? signed width.toNat v

/-- The CompactSize form of a number below 2⁶⁴: one byte below `fd`, and otherwise a marker byte
before two, four or eight bytes. -/
def compactSizeOf (n : Nat) : Bytes :=
  if n < 0xfd then Bytes.ofNatLE 1 n
  else if n ≤ 0xffff then 0xfd :: Bytes.ofNatLE 2 n
  else if n ≤ 0xffffffff then 0xfe :: Bytes.ofNatLE 4 n
  else 0xff :: Bytes.ofNatLE 8 n

/-- The CompactSize form of an integer. -/
def compactSize? (v : Int) : Except WriteError Bytes :=
  if v < 0 ∨ 0x10000000000000000 ≤ v then .error .compactSizeRange else .ok (compactSizeOf v.toNat)

/-- A byte string behind its CompactSize length. -/
def lengthPrefixed? (bs : Bytes) : Except WriteError Bytes := do
  return (← compactSize? bs.length) ++ bs

end BitcoinSpend.Wire
