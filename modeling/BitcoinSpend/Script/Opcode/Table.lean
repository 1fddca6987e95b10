import BitcoinSpend.Script.Opcode.Code
import BitcoinSpend.Script.Opcode.Name

/-!
# The table of opcodes

The opcodes as a list, in which `Opcode.ofCode?` and `Opcode.ofName?` look them up. Read these two
first. The list is complete and its codes and mnemonics are distinct, so that they invert
`Opcode.code` and `Opcode.name`.
-/

namespace BitcoinSpend.Script

/-- The conditional keywords. -/
def Branch.all : List Branch :=
  [.whenTrue, .whenFalse, .otherwise, .close]

/-- The signature opcodes. -/
def SignatureOp.all : List SignatureOp :=
  [.codeSeparator, .checkSig, .checkSigVerify, .checkMultiSig, .checkMultiSigVerify]

/-- The opcodes without an effect. -/
def Nop.all : List Nop :=
  [.nop, .nop1, .checkLockTimeVerify, .checkSequenceVerify, .nop4, .nop5, .nop6, .nop7, .nop8,
    .nop9, .nop10]

/-- The reserved opcodes. -/
def Reserved.all : List Reserved :=
  [.reserved, .version, .reserved1, .reserved2, .opReturn]

/-- The forbidden opcodes. -/
def Forbidden.all : List Forbidden :=
  [.verIf, .verNotIf]

/-- The disabled opcodes. -/
def Disabled.all : List Disabled :=
  [.cat, .substr, .left, .right, .invert, .bitAnd, .bitOr, .bitXor, .double, .halve, .multiply,
    .divide, .modulo, .shiftLeft, .shiftRight]

/-- The verifying opcodes. -/
def Verify.all : List Verify :=
  [.verify, .equalVerify, .numEqualVerify]

/-- The opcodes that move an item between the stacks. -/
def AltMove.all : List AltMove :=
  [.toAlt, .fromAlt]

/-- The opcodes that rearrange items. -/
def Shuffle.all : List Shuffle :=
  [.drop2, .dup2, .dup3, .over2, .rot2, .swap2, .ifDup, .drop, .dup, .nip, .over, .pick, .roll,
    .rot, .swap, .tuck]

/-- The opcodes that measure or compare. -/
def Inspect.all : List Inspect :=
  [.depth, .size, .equal]

/-- The hashing opcodes. -/
def HashOp.all : List HashOp :=
  [.ripemd160, .sha1, .sha256, .hash160, .hash256]

/-- The opcodes on one number. -/
def Unary.all : List Unary :=
  [.addOne, .subOne, .negate, .abs, .isZero, .isNonzero]

/-- The opcodes on two numbers. -/
def Binary.all : List Binary :=
  [.add, .sub, .boolAnd, .boolOr, .numEqual, .numNotEqual, .lessThan, .greaterThan,
    .lessThanOrEqual, .greaterThanOrEqual, .minimum, .maximum]

/-- The constants. -/
def Constant.all : List Constant :=
  .zero :: .minusOne :: (List.finRange 16).map .small

/-- The stack opcodes. -/
def StackOp.all : List StackOp :=
  Constant.all.map .constant ++ Verify.all.map .verify ++ AltMove.all.map .altMove
    ++ Shuffle.all.map .shuffle ++ Inspect.all.map .inspect ++ HashOp.all.map .hash
    ++ Unary.all.map .unary ++ Binary.all.map .binary ++ [.within]

/-- Every opcode. -/
def Opcode.all : List Opcode :=
  [.pushData .one, .pushData .two, .pushData .four] ++ Nop.all.map .nop
    ++ Reserved.all.map .reserved ++ Forbidden.all.map .forbidden ++ Branch.all.map .branch
    ++ SignatureOp.all.map .signature ++ Disabled.all.map .disabled ++ StackOp.all.map .stack

/-- The opcode that a byte writes. The bytes `01` to `4b` and those above `b9` write none. -/
def Opcode.ofCode? (c : UInt8) : Option Opcode :=
  all.find? fun o ↦ o.code = c

/-- The opcode with a mnemonic. -/
def Opcode.ofName? (s : String) : Option Opcode :=
  all.find? fun o ↦ o.name = s

/-- The list is complete. -/
theorem Opcode.mem_all (o : Opcode) : o ∈ all := by
  cases o with
  | pushData f => cases f <;> decide
  | nop n => cases n <;> decide
  | reserved r => cases r <;> decide
  | forbidden f => cases f <;> decide
  | branch b => cases b <;> decide
  | signature s => cases s <;> decide
  | disabled d => cases d <;> decide
  | stack op =>
    simp only [all, List.mem_append]
    refine Or.inr (List.mem_map_of_mem ?_)
    cases op with
    | constant c =>
      cases c with
      | small n => revert n; decide
      | _ => decide
    | verify v => cases v <;> decide
    | altMove m => cases m <;> decide
    | shuffle s => cases s <;> decide
    | inspect i => cases i <;> decide
    | hash h => cases h <;> decide
    | unary u => cases u <;> decide
    | binary b => cases b <;> decide
    | within => decide

/-- Looking up the code of an opcode gives the opcode back. -/
theorem Opcode.ofCode?_code (o : Opcode) : ofCode? o.code = some o := by
  have h : ∀ o ∈ all, ofCode? o.code = some o := by decide +kernel
  exact h o o.mem_all

/-- Looking up the mnemonic of an opcode gives the opcode back. -/
theorem Opcode.ofName?_name (o : Opcode) : ofName? o.name = some o := by
  have h : ∀ o ∈ all, ofName? o.name = some o := by decide +kernel
  exact h o o.mem_all

end BitcoinSpend.Script
