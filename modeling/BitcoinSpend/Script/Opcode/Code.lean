import BitcoinSpend.Script.Opcode.Basic

/-!
# Codes of opcodes

Each opcode is written as one byte. Read `Opcode.code` first, which collects the codes of the
families.
-/

namespace BitcoinSpend.Script

/-- The code of each conditional keyword. -/
def Branch.code : Branch → UInt8
  | .whenTrue => 0x63
  | .whenFalse => 0x64
  | .otherwise => 0x67
  | .close => 0x68

/-- The code of each signature opcode. -/
def SignatureOp.code : SignatureOp → UInt8
  | .codeSeparator => 0xab
  | .checkSig => 0xac
  | .checkSigVerify => 0xad
  | .checkMultiSig => 0xae
  | .checkMultiSigVerify => 0xaf

/-- The code of each opcode without an effect. -/
def Nop.code : Nop → UInt8
  | .nop => 0x61
  | .nop1 => 0xb0
  | .checkLockTimeVerify => 0xb1
  | .checkSequenceVerify => 0xb2
  | .nop4 => 0xb3
  | .nop5 => 0xb4
  | .nop6 => 0xb5
  | .nop7 => 0xb6
  | .nop8 => 0xb7
  | .nop9 => 0xb8
  | .nop10 => 0xb9

/-- The code of each reserved opcode. -/
def Reserved.code : Reserved → UInt8
  | .reserved => 0x50
  | .version => 0x62
  | .reserved1 => 0x89
  | .reserved2 => 0x8a
  | .opReturn => 0x6a

/-- The code of each forbidden opcode. -/
def Forbidden.code : Forbidden → UInt8
  | .verIf => 0x65
  | .verNotIf => 0x66

/-- The code of each disabled opcode. -/
def Disabled.code : Disabled → UInt8
  | .cat => 0x7e
  | .substr => 0x7f
  | .left => 0x80
  | .right => 0x81
  | .invert => 0x83
  | .bitAnd => 0x84
  | .bitOr => 0x85
  | .bitXor => 0x86
  | .double => 0x8d
  | .halve => 0x8e
  | .multiply => 0x95
  | .divide => 0x96
  | .modulo => 0x97
  | .shiftLeft => 0x98
  | .shiftRight => 0x99

/-- The code of each verifying opcode. -/
def Verify.code : Verify → UInt8
  | .verify => 0x69
  | .equalVerify => 0x88
  | .numEqualVerify => 0x9d

/-- The code of each opcode that moves an item between the stacks. -/
def AltMove.code : AltMove → UInt8
  | .toAlt => 0x6b
  | .fromAlt => 0x6c

/-- The code of each opcode that rearranges items. -/
def Shuffle.code : Shuffle → UInt8
  | .drop2 => 0x6d
  | .dup2 => 0x6e
  | .dup3 => 0x6f
  | .over2 => 0x70
  | .rot2 => 0x71
  | .swap2 => 0x72
  | .ifDup => 0x73
  | .drop => 0x75
  | .dup => 0x76
  | .nip => 0x77
  | .over => 0x78
  | .pick => 0x79
  | .roll => 0x7a
  | .rot => 0x7b
  | .swap => 0x7c
  | .tuck => 0x7d

/-- The code of each opcode that measures or compares. -/
def Inspect.code : Inspect → UInt8
  | .depth => 0x74
  | .size => 0x82
  | .equal => 0x87

/-- The code of each hashing opcode. -/
def HashOp.code : HashOp → UInt8
  | .ripemd160 => 0xa6
  | .sha1 => 0xa7
  | .sha256 => 0xa8
  | .hash160 => 0xa9
  | .hash256 => 0xaa

/-- The code of each opcode on one number. -/
def Unary.code : Unary → UInt8
  | .addOne => 0x8b
  | .subOne => 0x8c
  | .negate => 0x8f
  | .abs => 0x90
  | .isZero => 0x91
  | .isNonzero => 0x92

/-- The code of each opcode on two numbers. -/
def Binary.code : Binary → UInt8
  | .add => 0x93
  | .sub => 0x94
  | .boolAnd => 0x9a
  | .boolOr => 0x9b
  | .numEqual => 0x9c
  | .numNotEqual => 0x9e
  | .lessThan => 0x9f
  | .greaterThan => 0xa0
  | .lessThanOrEqual => 0xa1
  | .greaterThanOrEqual => 0xa2
  | .minimum => 0xa3
  | .maximum => 0xa4

/-- The code of each constant. -/
def Constant.code : Constant → UInt8
  | .zero => 0x00
  | .minusOne => 0x4f
  | .small n => UInt8.ofNat (0x51 + n.val)

/-- The code of each push with a length field. -/
def LengthField.code : LengthField → UInt8
  | .one => 0x4c
  | .two => 0x4d
  | .four => 0x4e

/-- The code of each stack opcode. -/
def StackOp.code : StackOp → UInt8
  | .constant c => c.code
  | .verify v => v.code
  | .altMove m => m.code
  | .shuffle s => s.code
  | .inspect i => i.code
  | .hash h => h.code
  | .unary u => u.code
  | .binary b => b.code
  | .within => 0xa5

/-- The byte that writes an opcode. -/
def Opcode.code : Opcode → UInt8
  | .pushData field => field.code
  | .nop n => n.code
  | .reserved r => r.code
  | .forbidden f => f.code
  | .branch b => b.code
  | .signature s => s.code
  | .disabled d => d.code
  | .stack op => op.code

end BitcoinSpend.Script
