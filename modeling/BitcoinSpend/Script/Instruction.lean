import BitcoinSpend.Script.Token

/-!
# Instructions

The byte form of a script is a row of instructions: pushes with their data, opcodes, bytes that are
no opcode, and at the end perhaps a push whose data runs past the end. Read `first` first: it cuts
one instruction off the front. `parse` never fails, and `encode` gives back the bytes that an
instruction covers.
-/

namespace BitcoinSpend.Script

/-- One unit of the byte form of a script. -/
inductive Instruction where
  | direct (data : Bytes)
  | sized (field : LengthField) (data : Bytes)
  | op (o : Opcode)
  | undefined (code : UInt8)
  | truncated (bytes : Bytes)
deriving DecidableEq

namespace Instruction

/-- The longest data whose push is written with its length as the opcode. -/
def maxDirect : Nat :=
  75

/-- The push with a length field that a byte writes. -/
def lengthField? (code : UInt8) : Option LengthField :=
  if code = 0x4c then some .one else if code = 0x4d then some .two
  else if code = 0x4e then some .four else none

/-- The instruction that begins with a byte, and what follows it. A push that runs past the end
takes everything. -/
def first (code : UInt8) (rest : Bytes) : Instruction × Bytes :=
  if 1 ≤ code.toNat ∧ code.toNat ≤ maxDirect then
    let data := rest.take code.toNat
    if data.length < code.toNat then (.truncated (code :: rest), [])
    else (.direct data, rest.drop code.toNat)
  else
    match lengthField? code with
    | some field =>
      let size := rest.take field.width
      let body := rest.drop field.width
      let data := body.take (Bytes.toNatLE size)
      if size.length < field.width ∨ data.length < Bytes.toNatLE size then
        (.truncated (code :: rest), [])
      else (.sized field data, body.drop (Bytes.toNatLE size))
    | none =>
      match Opcode.ofCode? code with
      | some o => (.op o, rest)
      | none => (.undefined code, rest)

/-- Cutting an instruction off leaves no more than what followed its first byte. -/
theorem length_first_le (code : UInt8) (rest : Bytes) :
    (first code rest).2.length ≤ rest.length := by
  unfold first
  dsimp only
  split
  · split <;> simp
  · split
    · split <;> simp
    · split <;> simp

/-- The instructions of a script. -/
def parse : Bytes → List Instruction
  | [] => []
  | code :: rest => (first code rest).1 :: parse (first code rest).2
termination_by script => script.length
decreasing_by
  have := length_first_le code rest
  simp only [List.length_cons]
  omega

/-- The bytes that an instruction covers. -/
def encode : Instruction → Bytes
  | direct data => UInt8.ofNat data.length :: data
  | sized field data => field.code :: (Bytes.ofNatLE field.width data.length ++ data)
  | op o => [o.code]
  | undefined code => [code]
  | truncated bytes => bytes

/-- The tokens of an instruction. The data of a push with a length field is a token of its own. -/
def tokens : Instruction → List Token
  | direct data => [.push data]
  | sized field data => [.op (.pushData field), .push data]
  | op o => [.op o]
  | undefined code => [.invalid (Hex.encode [code])]
  | truncated bytes => [.invalid (Hex.encode bytes)]

end Instruction

/-- The tokens of a script. Every byte string is a script, so this never fails. -/
def disassemble (script : Bytes) : List Token :=
  (Instruction.parse script).flatMap Instruction.tokens

/-- Why tokens could not be assembled. -/
inductive AssemblyError where
  | missingLiteral (field : LengthField)
  | dataTooLong (field : LengthField)
  | badPayload
  | unknownToken (text : String)
deriving DecidableEq, Repr

/-- The text of an assembly error. Data too long for its field and a marker without hexadecimal
text have none. -/
def AssemblyError.message? : AssemblyError → Option String
  | .missingLiteral field => some (field.name ++ " must be followed by a data literal")
  | .dataTooLong _ => none
  | .badPayload => none
  | .unknownToken text => some ("Unknown script token: " ++ text)

/-- The shortest push of a byte string: nothing is pushed by the opcode for zero, and longer data
takes the least length field that holds its length. -/
def shortestPush (data : Bytes) : Bytes :=
  let n := data.length
  if n = 0 then [0x00]
  else if n ≤ Instruction.maxDirect then Instruction.encode (.direct data)
  else if n ≤ 0xff then Instruction.encode (.sized .one data)
  else if n ≤ 0xffff then Instruction.encode (.sized .two data)
  else Instruction.encode (.sized .four data)

/-- The push of a byte string with a given length field. -/
def sizedPush (field : LengthField) (data : Bytes) : Except AssemblyError Bytes :=
  if data.length < Bytes.capacity field.width then .ok (Instruction.encode (.sized field data))
  else .error (.dataTooLong field)

/-- The push of a literal that stands alone. No length field measures data of 2³² bytes and more. -/
def literalPush (data : Bytes) : Except AssemblyError Bytes :=
  if data.length < Bytes.capacity LengthField.four.width then .ok (shortestPush data)
  else .error (.dataTooLong .four)

/-- The bytes of a token that stands alone. -/
def Token.encode : Token → Except AssemblyError Bytes
  | .op (.pushData field) => .error (.missingLiteral field)
  | .op o => .ok [o.code]
  | .synonym a => .ok [a.opcode.code]
  | .literal l => literalPush l.data
  | .invalid payload =>
    match Hex.decode? payload with
    | some bytes => .ok bytes
    | none => .error .badPayload
  | .unknown text => .error (.unknownToken text)

/-- The bytes of a script in text form. The first token that has none decides the error. -/
def assemble : List Token → Except AssemblyError Bytes
  | [] => .ok []
  | .op (.pushData field) :: .literal l :: rest => do
    let front ← sizedPush field l.data
    return front ++ (← assemble rest)
  | token :: rest => do
    let front ← token.encode
    return front ++ (← assemble rest)

end BitcoinSpend.Script
