import BitcoinSpend.Bytes.Hex

/-!
# Reading the wire format

A reader consumes bytes from the front of a byte string and either returns a value or stops with a
`ReadError`; in both cases the state holds what is left, so a short read is seen to have used up
its input. Read `take` first: every other reader is built on it. Integers have a fixed width, counts
and lengths are CompactSize integers, and byte strings are prefixed with their length.
-/

namespace BitcoinSpend.Wire

/-- Why bytes could not be read. `what` names the field that was being read, if it has a name. -/
inductive ReadError where
  | insufficient (what : Option String)
  | oversize
  | trailingData
  | unsupportedFlag (flag : UInt8)
deriving DecidableEq, Repr

/-- The text of a read error. A length that no read can ask for has none. -/
def ReadError.message? : ReadError → Option String
  | .insufficient (some what) =>
    some ("Error reading stream. Insufficient data."
      ++ if what = "" then "" else " Data type: " ++ what)
  | .insufficient none => some "Error reading stream. Insufficient data."
  | .oversize => none
  | .trailingData => some "trailing data"
  | .unsupportedFlag flag => some ("Unsupported segwit flag: " ++ Hex.encode [flag])

/-- Computations that consume bytes from the front of the state. -/
abbrev Reader := EStateM ReadError Bytes

/-- A reader's outcome on a whole byte string, with what it left unread dropped. -/
def Reader.decode {α : Type} (r : Reader α) (bs : Bytes) : Except ReadError α :=
  match r.run bs with
  | .ok a _ => .ok a
  | .error e _ => .error e

/-- Reads exactly `n` bytes. A read that falls short consumes what was left, a negative length asks
for everything and is never met, and a length that is not addressable consumes nothing. -/
def take (n : Int) (what : Option String) : Reader Bytes := fun bs ↦
  if Bytes.addressable n then
    if n < 0 then .error (.insufficient what) []
    else
      let front := bs.take n.toNat
      if front.length < n.toNat then .error (.insufficient what) []
      else .ok front (bs.drop n.toNat)
  else .error .oversize bs

/-- Reads one byte. -/
def byte (what : Option String) : Reader UInt8 := fun bs ↦
  match bs with
  | [] => .error (.insufficient what) []
  | b :: rest => .ok b rest

/-- Reads a little-endian integer of `width` bytes. -/
def littleInt (signed : Bool) (width : Int) (what : Option String) : Reader Int := do
  let bs ← take width what
  return if signed then bs.toIntLE else bs.toNatLE

/-- Reads a big-endian integer of `width` bytes. -/
def bigInt (signed : Bool) (width : Int) (what : Option String) : Reader Int := do
  let bs ← take width what
  return if signed then bs.toIntBE else bs.toNatBE

/-- Reads a CompactSize integer. A first byte below `fd` is the value, and `fd`, `fe` and `ff` say
that two, four or eight bytes follow. Forms longer than needed are accepted. -/
def compactSize : Reader Nat := do
  let b ← byte (some "Compact Size Prefix")
  if b < 0xfd then return b.toNat
  else if b = 0xfd then return (← take 2 (some "Compact Size: 0xfd")).toNatLE
  else if b = 0xfe then return (← take 4 (some "Compact Size: 0xfe")).toNatLE
  else return (← take 8 (some "Compact Size: 0xff")).toNatLE

/-- Reads a CompactSize length and then that many bytes. -/
def lengthPrefixed (what : Option String) : Reader Bytes := do
  let n ← compactSize
  take n what

/-- Reads `count` elements one after another, stopping at the first that cannot be read. -/
def many {α : Type} (element : Reader α) : (count : Nat) → Reader (List α)
  | 0 => pure []
  | count + 1 => do
    let a ← element
    let rest ← many element count
    return a :: rest

/-- Succeeds only at the end of the input; one byte of anything further is consumed. -/
def atEnd : Reader Unit := fun bs ↦
  match bs with
  | [] => .ok () []
  | _ :: rest => .error .trailingData rest

end BitcoinSpend.Wire
