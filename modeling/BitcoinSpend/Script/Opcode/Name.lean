import BitcoinSpend.Script.Opcode.Basic

/-!
# Mnemonics of opcodes

Each opcode has a mnemonic, which is its token in the text form of a script. Read `Opcode.name`
first, which collects the mnemonics of the families.
-/

namespace BitcoinSpend.Script

/-- The mnemonic of each conditional keyword. -/
def Branch.name : Branch → String
  | .whenTrue => "OP_IF"
  | .whenFalse => "OP_NOTIF"
  | .otherwise => "OP_ELSE"
  | .close => "OP_ENDIF"

/-- The mnemonic of each signature opcode. -/
def SignatureOp.name : SignatureOp → String
  | .codeSeparator => "OP_CODESEPARATOR"
  | .checkSig => "OP_CHECKSIG"
  | .checkSigVerify => "OP_CHECKSIGVERIFY"
  | .checkMultiSig => "OP_CHECKMULTISIG"
  | .checkMultiSigVerify => "OP_CHECKMULTISIGVERIFY"

/-- The mnemonic of each opcode without an effect. -/
def Nop.name : Nop → String
  | .nop => "OP_NOP"
  | .nop1 => "OP_NOP1"
  | .checkLockTimeVerify => "OP_CHECKLOCKTIMEVERIFY"
  | .checkSequenceVerify => "OP_CHECKSEQUENCEVERIFY"
  | .nop4 => "OP_NOP4"
  | .nop5 => "OP_NOP5"
  | .nop6 => "OP_NOP6"
  | .nop7 => "OP_NOP7"
  | .nop8 => "OP_NOP8"
  | .nop9 => "OP_NOP9"
  | .nop10 => "OP_NOP10"

/-- The mnemonic of each reserved opcode. -/
def Reserved.name : Reserved → String
  | .reserved => "OP_RESERVED"
  | .version => "OP_VER"
  | .reserved1 => "OP_RESERVED1"
  | .reserved2 => "OP_RESERVED2"
  | .opReturn => "OP_RETURN"

/-- The mnemonic of each forbidden opcode. -/
def Forbidden.name : Forbidden → String
  | .verIf => "OP_VERIF"
  | .verNotIf => "OP_VERNOTIF"

/-- The mnemonic of each disabled opcode. -/
def Disabled.name : Disabled → String
  | .cat => "OP_CAT"
  | .substr => "OP_SUBSTR"
  | .left => "OP_LEFT"
  | .right => "OP_RIGHT"
  | .invert => "OP_INVERT"
  | .bitAnd => "OP_AND"
  | .bitOr => "OP_OR"
  | .bitXor => "OP_XOR"
  | .double => "OP_2MUL"
  | .halve => "OP_2DIV"
  | .multiply => "OP_MUL"
  | .divide => "OP_DIV"
  | .modulo => "OP_MOD"
  | .shiftLeft => "OP_LSHIFT"
  | .shiftRight => "OP_RSHIFT"

/-- The mnemonic of each verifying opcode. -/
def Verify.name : Verify → String
  | .verify => "OP_VERIFY"
  | .equalVerify => "OP_EQUALVERIFY"
  | .numEqualVerify => "OP_NUMEQUALVERIFY"

/-- The mnemonic of each opcode that moves an item between the stacks. -/
def AltMove.name : AltMove → String
  | .toAlt => "OP_TOALTSTACK"
  | .fromAlt => "OP_FROMALTSTACK"

/-- The mnemonic of each opcode that rearranges items. -/
def Shuffle.name : Shuffle → String
  | .drop2 => "OP_2DROP"
  | .dup2 => "OP_2DUP"
  | .dup3 => "OP_3DUP"
  | .over2 => "OP_2OVER"
  | .rot2 => "OP_2ROT"
  | .swap2 => "OP_2SWAP"
  | .ifDup => "OP_IFDUP"
  | .drop => "OP_DROP"
  | .dup => "OP_DUP"
  | .nip => "OP_NIP"
  | .over => "OP_OVER"
  | .pick => "OP_PICK"
  | .roll => "OP_ROLL"
  | .rot => "OP_ROT"
  | .swap => "OP_SWAP"
  | .tuck => "OP_TUCK"

/-- The mnemonic of each opcode that measures or compares. -/
def Inspect.name : Inspect → String
  | .depth => "OP_DEPTH"
  | .size => "OP_SIZE"
  | .equal => "OP_EQUAL"

/-- The mnemonic of each hashing opcode. -/
def HashOp.name : HashOp → String
  | .ripemd160 => "OP_RIPEMD160"
  | .sha1 => "OP_SHA1"
  | .sha256 => "OP_SHA256"
  | .hash160 => "OP_HASH160"
  | .hash256 => "OP_HASH256"

/-- The mnemonic of each opcode on one number. -/
def Unary.name : Unary → String
  | .addOne => "OP_1ADD"
  | .subOne => "OP_1SUB"
  | .negate => "OP_NEGATE"
  | .abs => "OP_ABS"
  | .isZero => "OP_NOT"
  | .isNonzero => "OP_0NOTEQUAL"

/-- The mnemonic of each opcode on two numbers. -/
def Binary.name : Binary → String
  | .add => "OP_ADD"
  | .sub => "OP_SUB"
  | .boolAnd => "OP_BOOLAND"
  | .boolOr => "OP_BOOLOR"
  | .numEqual => "OP_NUMEQUAL"
  | .numNotEqual => "OP_NUMNOTEQUAL"
  | .lessThan => "OP_LESSTHAN"
  | .greaterThan => "OP_GREATERTHAN"
  | .lessThanOrEqual => "OP_LESSTHANOREQUAL"
  | .greaterThanOrEqual => "OP_GREATERTHANOREQUAL"
  | .minimum => "OP_MIN"
  | .maximum => "OP_MAX"

/-- The mnemonic of each constant. -/
def Constant.name : Constant → String
  | .zero => "OP_0"
  | .minusOne => "OP_1NEGATE"
  | .small n => "OP_" ++ toString (n.val + 1)

/-- The mnemonic of each push with a length field. -/
def LengthField.name : LengthField → String
  | .one => "OP_PUSHDATA1"
  | .two => "OP_PUSHDATA2"
  | .four => "OP_PUSHDATA4"

/-- The mnemonic of each stack opcode. -/
def StackOp.name : StackOp → String
  | .constant c => c.name
  | .verify v => v.name
  | .altMove m => m.name
  | .shuffle s => s.name
  | .inspect i => i.name
  | .hash h => h.name
  | .unary u => u.name
  | .binary b => b.name
  | .within => "OP_WITHIN"

/-- The mnemonic of an opcode. -/
def Opcode.name : Opcode → String
  | .pushData field => field.name
  | .nop n => n.name
  | .reserved r => r.name
  | .forbidden f => f.name
  | .branch b => b.name
  | .signature s => s.name
  | .disabled d => d.name
  | .stack op => op.name

end BitcoinSpend.Script
